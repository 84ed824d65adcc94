/-!
Reading bytes as UTF-8 without ever refusing them. A byte sequence that is not well formed is cut
into its maximal invalid parts, each the longest run of bytes that could still have begun a
character, and every such part reads as one U+FFFD.
-/

namespace ShaderReflection.Utf8

/-- What an invalid part of the input reads as. -/
def replacement : Char := '\uFFFD'

/-- The bytes from `low` to `high`, both included. -/
structure ByteRange where
  low : UInt8
  high : UInt8

/-- Whether the range has the byte. -/
def ByteRange.has (range : ByteRange) (byte : UInt8) : Bool :=
  range.low ≤ byte && byte ≤ range.high

/-- The range of an unrestricted continuation byte. -/
def continuation : ByteRange := ⟨0x80, 0xBF⟩

/-- A character of several bytes that has been read in part: the bits so far, the range the next
byte must lie in, and the ranges of the bytes after that one. -/
structure Pending where
  bits : Nat
  next : ByteRange
  later : List ByteRange

/-- What a leading byte above ASCII begins, if it begins anything. The ranges exclude overlong
forms, surrogates and code points above U+10FFFF. -/
def lead? (byte : UInt8) : Option Pending :=
  if byte < 0xC2 then none
  else if byte < 0xE0 then some ⟨byte.toNat - 0xC0, continuation, []⟩
  else if byte = 0xE0 then some ⟨0, ⟨0xA0, 0xBF⟩, [continuation]⟩
  else if byte = 0xED then some ⟨0xD, ⟨0x80, 0x9F⟩, [continuation]⟩
  else if byte < 0xF0 then some ⟨byte.toNat - 0xE0, continuation, [continuation]⟩
  else if byte = 0xF0 then some ⟨0, ⟨0x90, 0xBF⟩, [continuation, continuation]⟩
  else if byte < 0xF4 then some ⟨byte.toNat - 0xF0, continuation, [continuation, continuation]⟩
  else if byte = 0xF4 then some ⟨4, ⟨0x80, 0x8F⟩, [continuation, continuation]⟩
  else none

/-- A reader between two bytes: the characters read so far, the latest first, and the character
it is in the middle of, if any. -/
structure Reader where
  read : List Char
  pending : Option Pending

/-- A reader that has read nothing. -/
def Reader.empty : Reader := ⟨[], none⟩

/-- Ends the current character with `c`. -/
def Reader.emit (reader : Reader) (c : Char) : Reader := ⟨c :: reader.read, none⟩

/-- Reads a byte as the first of a character. -/
def Reader.start (reader : Reader) (byte : UInt8) : Reader :=
  if byte < 0x80 then reader.emit (Char.ofNat byte.toNat)
  else
    match lead? byte with
    | none => reader.emit replacement
    | some pending => ⟨reader.read, some pending⟩

/-- Reads one byte. A byte that cannot continue the character in progress closes it as an invalid
part and is then read as the first byte of the next. -/
def Reader.push (reader : Reader) (byte : UInt8) : Reader :=
  match reader.pending with
  | none => reader.start byte
  | some pending =>
    if pending.next.has byte then
      let bits := pending.bits * 64 + byte.toNat % 64
      match pending.later with
      | [] => reader.emit (Char.ofNat bits)
      | next :: later => ⟨reader.read, some ⟨bits, next, later⟩⟩
    else (reader.emit replacement).start byte

/-- The characters read once the input has ended; a character cut short is an invalid part. -/
def Reader.finish (reader : Reader) : List Char :=
  match reader.pending with
  | none => reader.read.reverse
  | some _ => (reader.emit replacement).read.reverse

/-- The characters of a byte sequence, with one U+FFFD for each maximal invalid part. -/
def decode (bytes : List UInt8) : List Char := (bytes.foldl Reader.push Reader.empty).finish

end ShaderReflection.Utf8
