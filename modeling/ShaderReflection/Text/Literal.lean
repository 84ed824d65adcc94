import ShaderReflection.Word
import ShaderReflection.Text.Utf8

/-!
Literal strings as instructions carry them: UTF-8 bytes packed four to a word, least significant
byte first, and ended by a zero byte. The words after the one that holds the terminator belong to
the next operand.
-/

namespace ShaderReflection.Literal

/-- Whether none of the word's bytes ends a literal. -/
def isFull (word : Word) : Bool := (Word.bytes word).all (· != 0)

/-- Reads the literal that begins at the word with index `start`. Gives its text and the index of
the first word after it, or nothing when no zero byte follows. -/
def decode? (words : List Word) (start : Nat) : Option (String × Nat) :=
  let available := words.drop start
  let full := available.takeWhile isFull
  match available.drop full.length with
  | [] => none
  | last :: _ =>
    let bytes := full.flatMap Word.bytes ++ (Word.bytes last).takeWhile (· != 0)
    some (String.ofList (Utf8.decode bytes), start + full.length + 1)

/-- Packs a text into words. The bytes are padded with zeros to whole words, at least one zero
among them, so a text whose length is a multiple of four is followed by a word of zeros. -/
def encode (text : String) : List Word :=
  let bytes := text.toUTF8.toList
  Word.ofImage (bytes ++ List.replicate (4 - bytes.length % 4) 0)

end ShaderReflection.Literal
