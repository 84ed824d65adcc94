import ShaderReflection.Header
import ShaderReflection.Instruction

/-!
Walking a word stream instruction by instruction. The count in an instruction's first word says
where the next one begins, so a count of zero and a count that leaves the stream are faults. Both
end the walk, and `scan` gives the instructions up to there.
-/

namespace ShaderReflection

/-- A place in a word stream. The place may lie past the end of the stream. -/
structure Cursor where
  words : List Word
  offset : Nat
  /-- The words from the place on. -/
  rest : List Word
  rest_eq : rest = words.drop offset

namespace Cursor

/-- The place right after the header. -/
def ofWords (words : List Word) : Cursor := ⟨words, headerLength, words.drop headerLength, rfl⟩

/-- Whether a word stands at the place. -/
def inBounds (cursor : Cursor) : Bool := !cursor.rest.isEmpty

/-- The word count of the instruction at the place, zero past the end of the stream. -/
def currentSize (cursor : Cursor) : Nat :=
  match cursor.rest with
  | [] => 0
  | first :: _ => Instruction.countOf first

/-- Reads the instruction at the place. Past the end of the stream the error counts all words of
the stream as available. -/
def current (cursor : Cursor) : Except ParseError Instruction :=
  match cursor.rest with
  | [] => .error (.malformed cursor.offset none (.overrun 0 cursor.words.length))
  | first :: following =>
    let opcode := Instruction.opcodeOf first
    match Instruction.countOf first with
    | 0 => .error (.malformed cursor.offset (some opcode) .zeroLength)
    | count + 1 =>
      let operands := following.take count
      if operands.length < count then
        let available := cursor.words.length - cursor.offset
        .error (.malformed cursor.offset (some opcode) (.overrun (count + 1) available))
      else .ok ⟨cursor.offset, opcode, operands⟩

/-- The place `count` words further on. -/
def skip (cursor : Cursor) (count : Nat) : Cursor where
  words := cursor.words
  offset := cursor.offset + count
  rest := cursor.rest.drop count
  rest_eq := by rw [cursor.rest_eq, List.drop_drop]

/-- Moves to the next instruction, which may begin past the end of the stream. Only a count of
zero stops this, and past the end the count is zero. -/
def advance (cursor : Cursor) : Except ParseError Cursor :=
  match cursor.currentSize with
  | 0 => .error (.malformed cursor.offset (cursor.rest.head?.map Instruction.opcodeOf) .zeroLength)
  | count + 1 => .ok (cursor.skip (count + 1))

/-- Moves a cursor that its owner keeps: whether a word stands at the new place, and the cursor that
the owner has afterwards. It is the old one if there is no next instruction to move to. -/
def move (cursor : Cursor) : Except ParseError Bool × Cursor :=
  match cursor.advance with
  | .ok next => (.ok next.inBounds, next)
  | .error error => (.error error, cursor)

/-- Skipping an instruction leaves fewer words. -/
theorem length_rest_skip_lt (cursor : Cursor) (insn : Instruction) (inside : cursor.inBounds) :
    (cursor.skip insn.wordCount).rest.length < cursor.rest.length := by
  have nonempty : cursor.rest.length ≠ 0 := by
    simpa [inBounds, List.isEmpty_iff] using inside
  simp only [skip, Instruction.wordCount, List.length_drop]
  omega

/-- The instructions from the place on, put after `done`, which is written last instruction first,
and the error that ended the walk before the end of the stream, if one did. -/
def scanFrom (cursor : Cursor) (done : List Instruction) : List Instruction × Option ParseError :=
  if inside : cursor.inBounds then
    match cursor.current with
    | .error error => (done.reverse, some error)
    | .ok insn =>
      have := length_rest_skip_lt cursor insn inside
      (cursor.skip insn.wordCount).scanFrom (insn :: done)
  else (done.reverse, none)
termination_by cursor.rest.length

end Cursor

/-- The instructions of a module, up to the first one that cannot be read, and the error at that
one. -/
def scan (words : List Word) : List Instruction × Option ParseError :=
  (Cursor.ofWords words).scanFrom []

end ShaderReflection
