import ShaderReflection.Word

/-!
Instructions as the stream holds them: a first word with the word count in its upper half and the
opcode in its lower half, then the operands.
-/

namespace ShaderReflection

/-- An instruction and the index of its first word. -/
structure Instruction where
  offset : Nat
  opcode : UInt16
  operands : List Word
  deriving DecidableEq, Repr

namespace Instruction

/-- How many words the instruction takes up, its first word included. -/
def wordCount (insn : Instruction) : Nat := insn.operands.length + 1

/-- The index of the instruction's first byte in the module's byte image. -/
def byteOffset (insn : Instruction) : Nat := insn.offset * 4

/-- The opcode in the lower half of a first word. -/
def opcodeOf (first : Word) : UInt16 := UInt16.ofNat first.toNat

/-- The word count in the upper half of a first word. -/
def countOf (first : Word) : Nat := first.toNat / 65536

/-- The first word of an instruction. The count has to fit in 16 bits. -/
def firstWord (opcode : UInt16) (count : Nat) : Word :=
  UInt32.ofNat (count * 65536 + opcode.toNat)

/-- The words of an instruction with the given opcode and operands. -/
def encode (opcode : UInt16) (operands : List Word) : List Word :=
  firstWord opcode (operands.length + 1) :: operands

/-- The words that the instruction was read from. -/
def words (insn : Instruction) : List Word := encode insn.opcode insn.operands

end Instruction

end ShaderReflection
