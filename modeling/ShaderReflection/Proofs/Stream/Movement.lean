import ShaderReflection.Proofs.Stream.Reading

/-!
Where a cursor can get to, and what it reports there. A move looks at the count alone and not at the
end of the stream, so a cursor can come to stand past the end. Inside the stream an overrun tells
how many words are left; past the end it tells how many the whole stream has.
-/

namespace ShaderReflection.Cursor

/-- The cursor that its owner has after a number of moves, failed ones included. -/
def after (cursor : Cursor) : Nat → Cursor
  | 0 => cursor
  | moves + 1 => cursor.move.2.after moves

/-- The instruction that stands at a place: a word is there, its count is at least one, the stream
holds that many words from the place on, and those behind the first are the operands. -/
def Stands (words : List Word) (place : Nat) (insn : Instruction) : Prop :=
  ∃ first, words[place]? = some first ∧ 1 ≤ Instruction.countOf first ∧
    place + Instruction.countOf first ≤ words.length ∧
    insn = ⟨place, Instruction.opcodeOf first,
      (words.take (place + Instruction.countOf first)).drop (place + 1)⟩

/-- What a cursor reports and where it moves, said of the words of the stream alone. -/
structure Reports (words : List Word) (cursor : Cursor) : Prop where
  reads : ∀ insn, cursor.current = .ok insn ↔ Stands words cursor.offset insn
  /-- Past the end, where no word is left, an overrun has all words of the stream for available. -/
  refuses : ∀ error, cursor.current = .error error ↔
    Blocked words cursor.offset error ∨
      words.length ≤ cursor.offset ∧
        error = .malformed cursor.offset none (.overrun 0 words.length)
  moves : ∀ inside, cursor.move.1 = .ok inside →
    (∃ first, words[cursor.offset]? = some first ∧ 1 ≤ Instruction.countOf first ∧
      cursor.move.2.offset = cursor.offset + Instruction.countOf first) ∧
    (inside = true ↔ cursor.move.2.offset < words.length)
  /-- The error speaks of a count of zero in any case. It has an opcode if a word stands there. -/
  stays : ∀ error, cursor.move.1 = .error error →
    cursor.move.2 = cursor ∧
    (∀ first, words[cursor.offset]? = some first → Instruction.countOf first = 0) ∧
    error = .malformed cursor.offset (words[cursor.offset]?.map Instruction.opcodeOf) .zeroLength

section Places

variable (cursor : Cursor) {first : Word} {following : List Word}

theorem eq_atPlace : cursor = atPlace cursor.words cursor.offset := by
  obtain ⟨words, offset, rest, rfl⟩ := cursor
  rfl

theorem getElem?_offset : cursor.words[cursor.offset]? = cursor.rest.head? := by
  rw [cursor.rest_eq, List.head?_drop]

theorem length_of_rest (hrest : cursor.rest = first :: following) :
    cursor.words.length = cursor.offset + (following.length + 1) := by
  have hlength := congrArg List.length hrest
  rw [cursor.rest_eq, List.length_drop, List.length_cons] at hlength
  omega

theorem length_le_of_rest (hrest : cursor.rest = []) : cursor.words.length ≤ cursor.offset := by
  rwa [cursor.rest_eq, List.drop_eq_nil_iff] at hrest

/-- The operands of an instruction end where its count says, and begin behind its first word. -/
theorem drop_take_of_rest (hrest : cursor.rest = first :: following) (count : Nat) :
    (cursor.words.take (cursor.offset + count)).drop (cursor.offset + 1) =
      following.take (count - 1) := by
  have hfollowing : cursor.words.drop (cursor.offset + 1) = following := by
    rw [← List.drop_drop, ← cursor.rest_eq, hrest, List.drop_one, List.tail_cons]
  rw [List.drop_take, hfollowing, Nat.add_sub_add_left]

end Places

section Reports

variable (cursor : Cursor)

theorem current_eq_ok_iff_stands (insn : Instruction) :
    cursor.current = .ok insn ↔ Stands cursor.words cursor.offset insn := by
  rw [Stands, cursor.getElem?_offset]
  cases hrest : cursor.rest with
  | nil => simp [current, hrest]
  | cons first following =>
      have hlength := cursor.length_of_rest hrest
      rw [cursor.current_eq hrest, List.head?_cons]
      constructor
      · intro h
        split_ifs at h with hzero hlong
        refine ⟨first, rfl, by omega, by omega, ?_⟩
        rw [cursor.drop_take_of_rest hrest]
        exact (Except.ok.inj h).symm
      · rintro ⟨other, hother, hcount, hfits, rfl⟩
        obtain rfl := Option.some.inj hother
        rw [if_neg (by omega), if_neg (by omega), cursor.drop_take_of_rest hrest]

theorem current_eq_error_iff (error : ParseError) :
    cursor.current = .error error ↔
      Blocked cursor.words cursor.offset error ∨
        cursor.words.length ≤ cursor.offset ∧
          error = .malformed cursor.offset none (.overrun 0 cursor.words.length) := by
  cases hrest : cursor.rest with
  | nil =>
      have houtside := cursor.length_le_of_rest hrest
      have hnot : ¬ Blocked cursor.words cursor.offset error := fun h =>
        absurd h.lt_length (by omega)
      simp [current, hrest, hnot, houtside, eq_comm]
  | cons first following =>
      have hinside : cursor.offset < cursor.words.length := by
        rw [cursor.length_of_rest hrest]
        omega
      have hblocked : cursor.current = .error error ↔
          Blocked cursor.words cursor.offset error := by
        rw [cursor.eq_atPlace]
        exact current_atPlace_eq_error_iff hinside
      rw [hblocked, or_iff_left]
      rintro ⟨houtside, -⟩
      omega

/-- A move skips as many words as the word at the place counts. It fails where no word stands, or
where the word counts none. -/
theorem move_cases :
    (∃ first, cursor.words[cursor.offset]? = some first ∧ 1 ≤ Instruction.countOf first ∧
      cursor.move = (.ok (cursor.skip (Instruction.countOf first)).inBounds,
        cursor.skip (Instruction.countOf first))) ∨
    (∀ first, cursor.words[cursor.offset]? = some first → Instruction.countOf first = 0) ∧
      cursor.move = (.error (.malformed cursor.offset
        (cursor.words[cursor.offset]?.map Instruction.opcodeOf) .zeroLength), cursor) := by
  rw [cursor.getElem?_offset]
  unfold move advance
  cases hrest : cursor.rest with
  | nil => simp [currentSize, hrest]
  | cons first following =>
      cases hcount : Instruction.countOf first with
      | zero => simp [currentSize, hrest, hcount]
      | succ count => simp [currentSize, hrest, hcount]

theorem reports : Reports cursor.words cursor where
  reads := cursor.current_eq_ok_iff_stands
  refuses := cursor.current_eq_error_iff
  moves := by
    intro inside hmoved
    rcases cursor.move_cases with ⟨first, hfirst, hcount, hmove⟩ | ⟨-, hmove⟩
    · rw [hmove] at hmoved ⊢
      obtain rfl := Except.ok.inj hmoved
      exact ⟨⟨first, hfirst, hcount, rfl⟩, inBounds_iff _⟩
    · rw [hmove] at hmoved
      cases hmoved
  stays := by
    intro error hfailed
    rcases cursor.move_cases with ⟨first, -, -, hmove⟩ | ⟨hzero, hmove⟩
    · rw [hmove] at hfailed
      cases hfailed
    · rw [hmove] at hfailed ⊢
      exact ⟨rfl, hzero, (Except.error.inj hfailed).symm⟩

end Reports

/-- Where a cursor over a stream can be. A move begins inside the stream and skips less than 65536
words, so there is a last place to get to. -/
structure InReach (words : List Word) (cursor : Cursor) : Prop where
  words_eq : cursor.words = words
  first : headerLength ≤ cursor.offset
  last : cursor.offset ≤ max headerLength (words.length + 65534)

namespace InReach

variable {words : List Word} {cursor : Cursor}

theorem ofWords : InReach words (ofWords words) where
  words_eq := rfl
  first := Nat.le_refl _
  last := Nat.le_max_left _ _

theorem move (h : InReach words cursor) : InReach words cursor.move.2 := by
  rcases cursor.move_cases with ⟨first, hfirst, -, hmove⟩ | ⟨-, hmove⟩
  · obtain ⟨hwords, hplace, -⟩ := h
    have hinside := (List.getElem?_eq_some_iff.mp hfirst).1
    have hcount := Instruction.countOf_lt first
    rw [hwords] at hinside
    rw [hmove]
    refine ⟨hwords, ?_, ?_⟩
    · simp only [skip]
      omega
    · simp only [skip]
      omega
  · rw [hmove]
    exact h

theorem after (h : InReach words cursor) (moves : Nat) : InReach words (cursor.after moves) := by
  induction moves generalizing cursor with
  | zero => exact h
  | succ moves ih => exact ih h.move

end InReach

/-- Whatever moves have been tried, a cursor has the words of its stream, stands in reach of them
and reports on them from the place where it stands. -/
theorem reached_cursors_report (words : List Word) (moves : Nat) :
    let cursor := (ofWords words).after moves
    InReach words cursor ∧ Reports words cursor := by
  intro cursor
  have hreach : InReach words cursor := InReach.ofWords.after moves
  have hreports := cursor.reports
  rw [hreach.words_eq] at hreports
  exact ⟨hreach, hreports⟩

/-- Past the end no word is left, and yet all of them count as available: a cursor has moved from
the sixth of seven words to where the tenth would be. -/
theorem overrun_counts_whole_stream :
    let words : List Word := [magicNumber, 0x10000, 0, 1024, 0, Instruction.firstWord 17 4, 1]
    let cursor := (ofWords words).after 1
    (ofWords words).move.1 = .ok false ∧ cursor.offset = 9 ∧ words.length - cursor.offset = 0 ∧
      cursor.current = .error (.malformed 9 none (.overrun 0 7)) :=
  ⟨rfl, rfl, rfl, rfl⟩

end ShaderReflection.Cursor
