import ShaderReflection.ParseError

/-!
The five words that every module begins with.
-/

namespace ShaderReflection

/-- The first word of every module. -/
def magicNumber : Word := 0x07230203

/-- How many words come before the first instruction. -/
def headerLength : Nat := 5

/-- A module's header. -/
structure Header where
  magic : Word
  /-- The version as `0x00MMmm00`, with the major number in `MM` and the minor in `mm`. -/
  version : Word
  generator : Word
  /-- Every id of the module is below the bound. -/
  bound : Word
  schema : Word
  deriving DecidableEq, Repr

namespace Header

/-- Reads the header from the beginning of a word stream. -/
def parse (words : List Word) : Except ParseError Header :=
  match words with
  | magic :: version :: generator :: bound :: schema :: _ =>
      if magic = magicNumber then .ok ⟨magic, version, generator, bound, schema⟩
      else .error (.badMagic magic)
  | _ => .error (.tooShort words.length)

/-- The header as words. -/
def words (header : Header) : List Word :=
  [header.magic, header.version, header.generator, header.bound, header.schema]

/-- The major version number. -/
def major (header : Header) : Nat := header.version.toNat / 65536 % 256

/-- The minor version number. -/
def minor (header : Header) : Nat := header.version.toNat / 256 % 256

end Header

end ShaderReflection
