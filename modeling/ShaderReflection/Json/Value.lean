import ShaderReflection.Json.Token

/-!
The value of a JSON text. The open brackets are kept in a list, so a text may nest as deep as it
likes, and an object keeps all its fields in order, those with a repeated key too.
-/

namespace ShaderReflection.Json

/-- A JSON value whose quoted texts and numbers are as written. -/
inductive Value where
  | null
  | bool (value : Bool)
  | number (text : List UInt8)
  | quoted (text : List UInt8)
  | array (items : List Value)
  | object (fields : List (List UInt8 × Value))

/-- A bracket that has not been closed, with what it holds so far, the latest first. -/
inductive Builder.Frame where
  | array (items : List Value)
  | object (fields : List (List UInt8 × Value))
  /-- An object in the middle of the field with a given key. -/
  | field (fields : List (List UInt8 × Value)) (key : List UInt8)

/-- What may come next. -/
inductive Builder.Next where
  | value
  /-- A value, or the end of an array with nothing in it. -/
  | firstItem
  | key
  /-- A key, or the end of an object with nothing in it. -/
  | firstKey
  | colon (key : List UInt8)
  /-- A comma or a closing bracket. -/
  | separator
  /-- Nothing: the value is complete. -/
  | nothing (result : Value)

/-- A value that has been read in part, with its open brackets innermost first. -/
structure Builder where
  brackets : List Builder.Frame
  next : Builder.Next

namespace Builder

/-- Puts a complete value where it belongs. -/
def complete (value : Value) : List Frame → Option Builder
  | [] => some ⟨[], .nothing value⟩
  | .array items :: outer => some ⟨.array (value :: items) :: outer, .separator⟩
  | .field fields key :: outer => some ⟨.object ((key, value) :: fields) :: outer, .separator⟩
  | .object _ :: _ => none

/-- Reads the first token of a value. -/
def startValue (brackets : List Frame) : Token → Option Builder
  | .openBracket => some ⟨.array [] :: brackets, .firstItem⟩
  | .openBrace => some ⟨.object [] :: brackets, .firstKey⟩
  | .null => complete .null brackets
  | .bool value => complete (.bool value) brackets
  | .number text => complete (.number text) brackets
  | .quoted text => complete (.quoted text) brackets
  | _ => none

/-- Closes the innermost bracket. -/
def close (brackets : List Frame) : Token → Option Builder
  | .closeBracket =>
    match brackets with
    | .array items :: outer => complete (.array items.reverse) outer
    | _ => none
  | .closeBrace =>
    match brackets with
    | .object fields :: outer => complete (.object fields.reverse) outer
    | _ => none
  | _ => none

/-- Reads one token. -/
def push (builder : Builder) (token : Token) : Option Builder :=
  match builder.next, token with
  | .value, token => startValue builder.brackets token
  | .firstItem, .closeBracket => close builder.brackets .closeBracket
  | .firstItem, token => startValue builder.brackets token
  | .key, .quoted key => some ⟨builder.brackets, .colon key⟩
  | .firstKey, .quoted key => some ⟨builder.brackets, .colon key⟩
  | .firstKey, .closeBrace => close builder.brackets .closeBrace
  | .colon key, .colon =>
    match builder.brackets with
    | .object fields :: outer => some ⟨.field fields key :: outer, .value⟩
    | _ => none
  | .separator, .comma =>
    match builder.brackets with
    | .array _ :: _ => some ⟨builder.brackets, .value⟩
    | .object _ :: _ => some ⟨builder.brackets, .key⟩
    | _ => none
  | .separator, token => close builder.brackets token
  | _, _ => none

end Builder

/-- The value that a sequence of tokens writes. -/
def Value.ofTokens? (tokens : List Token) : Option Value :=
  match tokens.foldlM Builder.push ⟨[], .value⟩ with
  | some ⟨_, .nothing result⟩ => some result
  | _ => none

/-- The value of a text. -/
def Value.ofText? (text : List UInt8) : Option Value := (Token.ofText? text).bind Value.ofTokens?

end ShaderReflection.Json
