import ShaderReflection.Json.Content
import ShaderReflection.NameTable.Grammar

/-!
Reading a grammar from its JSON text. The enumerations stand under the key `enum` of the field
`spv`, each with a `Name` and, if it has any, `Values`.
-/

namespace ShaderReflection.Grammar

/-- The mnemonics and values of an enumeration. Of several values for one mnemonic the last one
stays. -/
def readValues? (value : Json.Value) : Option (Std.ExtTreeMap String UInt64) := do
  let fields ← value.fields?
  fields.foldlM
    (fun values (mnemonic, value) =>
      match value with
      | .number numeral => (Json.natural? numeral).map (values.insert mnemonic)
      | _ => none)
    ∅

/-- An enumeration. -/
def readEnum? (value : Json.Value) : Option EnumDef :=
  match value.record? ["Name", "Values"] with
  | some [some (.quoted name), values] => do
    let name ← Json.text? name
    let values ← match values with
      | some values => readValues? values
      | none => some ∅
    return ⟨name, values⟩
  | _ => none

/-- The enumerations of a grammar. -/
def readEnums? (grammar : Json.Value) : Option (List EnumDef) :=
  match grammar.record? ["spv"] with
  | some [some spv] =>
    match spv.record? ["enum"] with
    | some [some (.array enums)] => enums.mapM readEnum?
    | _ => none
  | _ => none

/-- The name table that a grammar's text describes. -/
def load (text : List UInt8) : Except GrammarError NameTable :=
  match (Json.Value.ofText? text).bind readEnums? with
  | some enums => nameTable enums
  | none => .error .notGrammar

end ShaderReflection.Grammar
