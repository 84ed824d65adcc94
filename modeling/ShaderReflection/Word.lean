import Std.Data.ExtTreeMap

/-!
Thirty-two-bit words: their little-endian byte images, sums and products that notice overflow,
and tables keyed by a word.
-/

namespace ShaderReflection

/-- One word of a module's stream. -/
abbrev Word := UInt32

/-- The number that names a type, constant, variable or function within a module. -/
abbrev Ident := Word

/-- A table keyed by a word. Two tables that answer every look-up alike are equal, and a table
lists its entries in ascending order of key. -/
abbrev WordMap (α : Type) := Std.ExtTreeMap Word α

namespace Word

/-- The four bytes of a word, least significant first. -/
def bytes (word : Word) : List UInt8 :=
  [UInt8.ofNat word.toNat, UInt8.ofNat (word.toNat / 256),
    UInt8.ofNat (word.toNat / 65536), UInt8.ofNat (word.toNat / 16777216)]

/-- The word whose bytes, least significant first, are the four given. -/
def ofBytes (first second third fourth : UInt8) : Word :=
  UInt32.ofNat (first.toNat + 256 * second.toNat + 65536 * third.toNat + 16777216 * fourth.toNat)

/-- The words held by the whole groups of four bytes, put after `done`, which is written last
word first. Up to three bytes left over at the end are dropped. -/
def collect (done : List Word) : List UInt8 → List Word
  | first :: second :: third :: fourth :: rest =>
      collect (ofBytes first second third fourth :: done) rest
  | _ => done.reverse

/-- The words of a little-endian byte image. Bytes that do not fill a last word are dropped, so
callers check the image's length first. -/
def ofImage (image : List UInt8) : List Word := collect [] image

/-- The little-endian byte image of a word stream. -/
def image (words : List Word) : List UInt8 := words.flatMap bytes

/-- The sum of two words, unless it needs more than 32 bits. -/
def add? (a b : Word) : Option Word :=
  if a.toNat + b.toNat < UInt32.size then some (a + b) else none

/-- The product of two words, unless it needs more than 32 bits. -/
def mul? (a b : Word) : Option Word :=
  if a.toNat * b.toNat < UInt32.size then some (a * b) else none

end Word

end ShaderReflection
