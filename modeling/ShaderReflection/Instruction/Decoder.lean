import ShaderReflection.Instruction.Cursor
import ShaderReflection.NameTable

/-!
Reading instructions one at a time. A decoder is a module whose header has been read; a walk over
its instructions stands at a cursor and remembers whether an error has ended it.
-/

namespace ShaderReflection

/-- An instruction with the mnemonic that a name table has for its opcode. -/
structure Decoded where
  insn : Instruction
  mnemonic : Option String
  deriving DecidableEq, Repr

/-- A module whose header has been read, and the table for its mnemonics. -/
structure Decoder where
  words : List Word
  header : Header
  names : NameTable

/-- A walk over the instructions of a module. -/
structure Walk where
  cursor : Cursor
  names : NameTable
  /-- Whether an error has been given, after which nothing more is. -/
  ended : Bool := false

namespace Walk

/-- The next instruction or the error that stands in its place, and the walk after it. Nothing is
given past the end of the stream. -/
def next (walk : Walk) : Option (Except ParseError Decoded) × Walk :=
  if walk.ended || !walk.cursor.inBounds then (none, walk)
  else
    match walk.cursor.current with
    | .error error => (some (.error error), { walk with ended := true })
    | .ok insn =>
      match walk.cursor.advance with
      | .error error => (some (.error error), { walk with ended := true })
      | .ok cursor => (some (.ok ⟨insn, walk.names.opcodeName insn.opcode⟩), { walk with cursor })

/-- The walk after a number of calls of `next`. -/
def after (walk : Walk) : Nat → Walk
  | 0 => walk
  | calls + 1 => walk.next.2.after calls

/-- What `next` gives when it has been called a number of times before. -/
def call (walk : Walk) (earlier : Nat) : Option (Except ParseError Decoded) :=
  (walk.after earlier).next.1

end Walk

namespace Decoder

/-- Reads the header of a module. -/
def ofWords (names : NameTable) (words : List Word) : Except ParseError Decoder := do
  let header ← Header.parse words
  return { words, header, names }

/-- The walk over the instructions of a module, from right after the header. -/
def instructions (decoder : Decoder) : Walk where
  cursor := Cursor.ofWords decoder.words
  names := decoder.names

end Decoder

end ShaderReflection
