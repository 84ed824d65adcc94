/-!
The mnemonics of opcodes and decorations. A number or a mnemonic that a table does not know is no
error: instructions and decorations without a mnemonic are legal.
-/

namespace ShaderReflection

/-- The mnemonics of opcodes and decorations, from number to mnemonic and back. -/
structure NameTable where
  opcodeName : UInt16 → Option String
  decorationName : UInt32 → Option String
  opcodeValue : String → Option UInt16
  decorationValue : String → Option UInt32

/-- The table that two lists of numbers and mnemonics describe. The first entry that matches
answers a look-up. -/
def NameTable.ofLists (opcodes : List (UInt16 × String)) (decorations : List (UInt32 × String)) :
    NameTable where
  opcodeName opcode := opcodes.lookup opcode
  decorationName decoration := decorations.lookup decoration
  opcodeValue mnemonic := (opcodes.find? (·.2 == mnemonic)).map (·.1)
  decorationValue mnemonic := (decorations.find? (·.2 == mnemonic)).map (·.1)

end ShaderReflection
