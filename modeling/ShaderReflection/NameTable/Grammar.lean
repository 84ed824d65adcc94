import Std.Data.ExtTreeMap
import ShaderReflection.NameTable

/-!
Name tables out of a grammar, the machine-readable list of the standard's enumerations. Several
mnemonics may share a value: the value is then shown by the first of them. A mnemonic that is
given several values has the last one.
-/

namespace ShaderReflection

/-- An enumeration: its name and the value of each mnemonic. The mnemonics are visited in the order
of their code points. -/
structure EnumDef where
  name : String
  values : Std.ExtTreeMap String UInt64

/-- Why a grammar cannot be used. -/
inductive GrammarError where
  /-- The text is not a grammar in JSON. -/
  | notGrammar
  /-- An enumeration that a name table needs is absent. -/
  | missingEnum (enum : String)
  /-- A value is too wide for the numbers that it names. -/
  | valueOutOfRange (enum : String) (mnemonic : String) (value : UInt64) (width : Nat)
  deriving DecidableEq, Repr

/-- The message that reports an error. -/
def GrammarError.message : GrammarError → String
  | notGrammar => "invalid grammar JSON"
  | missingEnum enum => s!"grammar is missing the `{enum}` enum"
  | valueOutOfRange enum mnemonic value width =>
      s!"`{enum}` value {mnemonic} = {value} does not fit in {width} bits"

namespace Grammar

/-- The enumeration that lists the opcodes. -/
def opcodeEnum : String := "Op"

/-- The enumeration that lists the decorations. -/
def decorationEnum : String := "Decoration"

/-- How many bits the values of an enumeration may have, for those that a name table needs. -/
def width? (enum : String) : Option Nat :=
  if enum = opcodeEnum then some 16
  else if enum = decorationEnum then some 32
  else none

/-- Refuses the first value that is too wide. -/
def checkRange (enum : EnumDef) : Except GrammarError Unit :=
  match width? enum.name with
  | none => .ok ()
  | some width =>
    enum.values.toList.forM fun (mnemonic, value) =>
      if value.toNat < Nat.pow 2 width then .ok ()
      else .error (.valueOutOfRange enum.name mnemonic value width)

/-- The mnemonics and values of all enumerations with a name, in the order they are visited. -/
def entries (enums : List EnumDef) (name : String) : List (String × UInt64) :=
  (enums.filter (·.name == name)).flatMap (·.values.toList)

/-- The first mnemonic of each value. -/
def mnemonics (entries : List (String × UInt64)) : Std.ExtTreeMap UInt64 String :=
  entries.foldl (fun table (mnemonic, value) => table.insertIfNew value mnemonic) ∅

/-- The last value of each mnemonic. -/
def values (entries : List (String × UInt64)) : Std.ExtTreeMap String UInt64 :=
  entries.foldl (fun table (mnemonic, value) => table.insert mnemonic value) ∅

/-- Refuses a grammar that lacks an enumeration. -/
def checkPresent (enums : List EnumDef) (name : String) : Except GrammarError Unit :=
  if enums.any (·.name == name) then .ok () else .error (.missingEnum name)

/-- The name table of a grammar. A value out of range is reported before a missing
enumeration. -/
def nameTable (enums : List EnumDef) : Except GrammarError NameTable := do
  enums.forM checkRange
  checkPresent enums opcodeEnum
  checkPresent enums decorationEnum
  let opcodes := entries enums opcodeEnum
  let decorations := entries enums decorationEnum
  let opcodeNames := mnemonics opcodes
  let opcodeValues := values opcodes
  let decorationNames := mnemonics decorations
  let decorationValues := values decorations
  return {
    opcodeName := fun opcode => opcodeNames[opcode.toUInt64]?
    decorationName := fun decoration => decorationNames[decoration.toUInt64]?
    opcodeValue := fun mnemonic => opcodeValues[mnemonic]?.map (·.toUInt16)
    decorationValue := fun mnemonic => decorationValues[mnemonic]?.map (·.toUInt32) }

end Grammar

end ShaderReflection
