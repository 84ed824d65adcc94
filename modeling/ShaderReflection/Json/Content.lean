import ShaderReflection.Json.Value

/-!
What quoted texts, numbers and objects stand for, where a value of a certain form is wanted.
Characters above U+FFFF are escaped as two surrogates, which must come as a pair.
-/

namespace ShaderReflection.Json

/-- The code unit that four hexadecimal digits write. -/
def codeUnit? (a b c d : UInt8) : Option Nat := do
  let high := (← hexValue? a) * 16 + (← hexValue? b)
  let low := (← hexValue? c) * 16 + (← hexValue? d)
  return high * 256 + low

/-- Whether a code unit is the first of a surrogate pair. -/
def isHighSurrogate (unit : Nat) : Bool := 0xD800 ≤ unit && unit < 0xDC00

/-- Whether a code unit is the second of a surrogate pair. -/
def isLowSurrogate (unit : Nat) : Bool := 0xDC00 ≤ unit && unit < 0xE000

/-- Puts a character's bytes in front of bytes that are held last byte first. -/
def pushChar (done : List UInt8) (code : Nat) : List UInt8 :=
  (String.utf8EncodeChar (Char.ofNat code)).reverse ++ done

/-- The bytes that a quoted text stands for, put after `done`, which is held last byte first. -/
def unescape (done : List UInt8) : List UInt8 → Option (List UInt8)
  | [] => some done.reverse
  | 0x5C :: 0x75 :: a :: b :: c :: d :: 0x5C :: 0x75 :: e :: f :: g :: h :: rest => do
      let first ← codeUnit? a b c d
      if isHighSurrogate first then
        let second ← codeUnit? e f g h
        if isLowSurrogate second then
          unescape (pushChar done (0x10000 + (first - 0xD800) * 0x400 + (second - 0xDC00))) rest
        else none
      else if isLowSurrogate first then none
      else unescape (pushChar done first) (0x5C :: 0x75 :: e :: f :: g :: h :: rest)
  | 0x5C :: 0x75 :: a :: b :: c :: d :: rest => do
      let unit ← codeUnit? a b c d
      if isHighSurrogate unit || isLowSurrogate unit then none
      else unescape (pushChar done unit) rest
  | 0x5C :: letter :: rest =>
      match escapes.lookup letter with
      | some byte => unescape (byte :: done) rest
      | none => none
  | byte :: rest => unescape (byte :: done) rest

/-- The text that a quoted text stands for. Its bytes must be well-formed UTF-8. -/
def text? (quoted : List UInt8) : Option String :=
  (unescape [] quoted).bind fun bytes => String.fromUTF8? ⟨bytes.toArray⟩

/-- The number that a numeral stands for, if it is written with digits alone and fits in 64
bits. -/
def natural? (numeral : List UInt8) : Option UInt64 :=
  if numeral.all isDigit then
    let value := numeral.foldl (fun value digit => value * 10 + (digit.toNat - '0'.toNat)) 0
    if value < UInt64.size then some (UInt64.ofNat value) else none
  else none

/-- The fields of an object with their keys as texts. -/
def Value.fields? : Value → Option (List (String × Value))
  | .object fields => fields.mapM fun (key, value) => (text? key).map (·, value)
  | _ => none

/-- The values that belong to the keys of a record, in the order of the keys. A record is written
as an object, in which other keys are ignored and none of these is repeated, or as an array of the
values in order, which may stop early. -/
def Value.record? (keys : List String) : Value → Option (List (Option Value))
  | .array items =>
    if keys.length < items.length then none
    else some ((items.map some) ++ List.replicate (keys.length - items.length) none)
  | value => do
    let fields ← value.fields?
    keys.mapM fun key =>
      match fields.filter (·.1 == key) with
      | [] => some none
      | [(_, value)] => some (some value)
      | _ => none

end ShaderReflection.Json
