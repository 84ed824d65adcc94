import ShaderReflection.Word

/-!
Words as numerals: decimal numerals that are read, and hexadecimal ones that are written.
-/

namespace ShaderReflection.Numeral

/-- The number that a run of ASCII digits denotes. An empty run denotes none, nor does a run with
any other character in it. -/
def natural? (digits : List Char) : Option Nat :=
  if digits.isEmpty || !digits.all Char.isDigit then none
  else some (digits.foldl (fun value digit => value * 10 + (digit.toNat - '0'.toNat)) 0)

/-- Reads a word in decimal: an optional plus sign and digits, with leading zeros allowed, whose
value fits in 32 bits. -/
def word? (text : List Char) : Option Word :=
  let digits := match text with
    | '+' :: rest => rest
    | _ => text
  match natural? digits with
  | some value => if value < UInt32.size then some (UInt32.ofNat value) else none
  | none => none

/-- The hexadecimal digit of the lowest four bits, in lower case. -/
def hexDigit (value : Nat) : Char :=
  let nibble := value % 16
  if nibble < 10 then Char.ofNat ('0'.toNat + nibble) else Char.ofNat ('a'.toNat + (nibble - 10))

/-- A word as `0x` and eight hexadecimal digits. -/
def hex (word : Word) : String :=
  String.ofList ('0' :: 'x' ::
    [28, 24, 20, 16, 12, 8, 4, 0].map fun shift => hexDigit (word.toNat >>> shift))

end ShaderReflection.Numeral
