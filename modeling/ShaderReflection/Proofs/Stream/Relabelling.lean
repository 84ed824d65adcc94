import ShaderReflection.Proofs.Stream.Reading

/-!
Streams that differ only in where their instructions stand and in how opcodes are numbered. A walk
over one of them gives what a walk over the other gives, with the places and the opcodes changed.
-/

namespace ShaderReflection

/-- A change of the places and of the opcodes that instructions and errors name. -/
structure Relabelling where
  place : Nat → Nat
  opcode : UInt16 → UInt16

/-- The instruction at the changed place and with the changed opcode. -/
def Instruction.relabel (insn : Instruction) (change : Relabelling) : Instruction where
  offset := change.place insn.offset
  opcode := change.opcode insn.opcode
  operands := insn.operands

/-- The error about the changed place and the changed opcode. -/
def ParseError.relabel (error : ParseError) (change : Relabelling) : ParseError :=
  match error with
  | .idOutOfBounds id bound place => .idOutOfBounds id bound (change.place place)
  | .malformed place opcode fault =>
      .malformed (change.place place) (opcode.map change.opcode) fault
  | error => error

@[simp] theorem ParseError.relabel_id (error : ParseError) : error.relabel ⟨id, id⟩ = error := by
  cases error <;> simp [relabel]

/-- The words of instructions with every opcode changed. Where no whole instruction can be read, the
first word is still taken for one of an instruction. -/
def renumberFrom (change : UInt16 → UInt16) : List Word → List Word
  | [] => []
  | first :: following =>
    let count := Instruction.countOf first
    let renumbered := Instruction.firstWord (change (Instruction.opcodeOf first)) count
    if count = 0 then renumbered :: following
    else
      renumbered ::
        (following.take (count - 1) ++ renumberFrom change (following.drop (count - 1)))
termination_by words => words.length

/-- The words of a module with the opcode of every instruction changed. -/
def renumber (change : UInt16 → UInt16) (words : List Word) : List Word :=
  words.take headerLength ++ renumberFrom change (words.drop headerLength)

section Renumbering

variable {change : UInt16 → UInt16} {first : Word} {following : List Word}

theorem renumberFrom_nil : renumberFrom change [] = [] := by rw [renumberFrom]

theorem renumberFrom_of_zero (hzero : Instruction.countOf first = 0) :
    renumberFrom change (first :: following) =
      Instruction.firstWord (change (Instruction.opcodeOf first)) (Instruction.countOf first) ::
        following := by
  rw [renumberFrom]
  simp only [hzero, ↓reduceIte]

theorem renumberFrom_of_ne_zero (hcount : Instruction.countOf first ≠ 0) :
    renumberFrom change (first :: following) =
      Instruction.firstWord (change (Instruction.opcodeOf first)) (Instruction.countOf first) ::
        (following.take (Instruction.countOf first - 1) ++
          renumberFrom change (following.drop (Instruction.countOf first - 1))) := by
  rw [renumberFrom]
  simp only [hcount, ↓reduceIte]

@[simp] theorem length_renumberFrom (words : List Word) :
    (renumberFrom change words).length = words.length := by
  fun_induction renumberFrom change words with
  | case1 => rfl
  | case2 first following count renumbered hzero => rfl
  | case3 first following count renumbered hcount ih =>
      rw [List.length_cons, List.length_append, ih, ← List.length_append,
        List.take_append_drop, List.length_cons]

@[simp] theorem length_renumber (words : List Word) :
    (renumber change words).length = words.length := by
  rw [renumber, List.length_append, length_renumberFrom, ← List.length_append,
    List.take_append_drop]

/-- A renumbered stream begins with a first word of the same count. -/
theorem exists_renumberFrom_cons (change : UInt16 → UInt16) (first : Word)
    (following : List Word) :
    ∃ rest, rest.length = following.length ∧
      renumberFrom change (first :: following) =
        Instruction.firstWord (change (Instruction.opcodeOf first)) (Instruction.countOf first) ::
          rest := by
  have hlength : (renumberFrom change (first :: following)).length = following.length + 1 :=
    length_renumberFrom (first :: following)
  by_cases hzero : Instruction.countOf first = 0
  · exact ⟨following, rfl, renumberFrom_of_zero hzero⟩
  · rw [renumberFrom_of_ne_zero hzero] at hlength
    exact ⟨_, Nat.succ.inj hlength, renumberFrom_of_ne_zero hzero⟩

@[simp] theorem renumberFrom_id (words : List Word) : renumberFrom id words = words := by
  fun_induction renumberFrom id words with
  | case1 => rfl
  | case2 first following count renumbered hzero =>
      exact congrArg (· :: following) (Instruction.firstWord_opcodeOf_countOf first)
  | case3 first following count renumbered hcount ih =>
      have hfirst : renumbered = first := Instruction.firstWord_opcodeOf_countOf first
      rw [ih, List.take_append_drop, hfirst]

@[simp] theorem renumber_id (words : List Word) : renumber id words = words := by
  rw [renumber, renumberFrom_id, List.take_append_drop]

theorem drop_renumber (words : List Word) :
    (renumber change words).drop headerLength =
      renumberFrom change (words.drop headerLength) := by
  rw [renumber]
  by_cases hshort : words.length ≤ headerLength
  · rw [List.drop_eq_nil_of_le hshort, renumberFrom_nil, List.append_nil, List.take_of_length_le hshort,
      List.drop_eq_nil_of_le hshort]
  · have hlength : (words.take headerLength).length = headerLength := by
      rw [List.length_take]
      omega
    exact List.drop_left' hlength

/-- Renumbering an instruction changes its opcode, and what follows it is renumbered in turn. -/
theorem renumberFrom_words (insn : Instruction) (hcount : insn.wordCount < 65536)
    (following : List Word) :
    renumberFrom change (insn.words ++ following) =
      Instruction.encode (change insn.opcode) insn.operands ++ renumberFrom change following := by
  have hsize : Instruction.countOf (Instruction.firstWord insn.opcode insn.wordCount) =
      insn.wordCount := Instruction.countOf_firstWord _ _ hcount
  have hwords : insn.words ++ following =
      Instruction.firstWord insn.opcode insn.wordCount :: (insn.operands ++ following) := rfl
  rw [hwords, renumberFrom_of_ne_zero (by rw [hsize]; exact Nat.succ_ne_zero _), hsize,
    Instruction.opcodeOf_firstWord, Instruction.wordCount, Nat.add_sub_cancel,
    List.take_left' rfl, List.drop_left' rfl]
  rfl

end Renumbering

namespace Cursor

variable {change : Relabelling} {cursor cursor' : Cursor}

/-- Whether a cursor stands in a renumbered stream where another stands in the stream itself, when
places from there on change by a fixed number of words. -/
structure Follows (change : Relabelling) (cursor' cursor : Cursor) : Prop where
  offset : ∀ count, change.place (cursor.offset + count) = cursor'.offset + count
  rest : cursor'.rest = renumberFrom change.opcode cursor.rest

namespace Follows

theorem remaining (h : Follows change cursor' cursor) :
    cursor'.words.length - cursor'.offset = cursor.words.length - cursor.offset := by
  rw [← List.length_drop, ← List.length_drop, ← cursor'.rest_eq, ← cursor.rest_eq, h.rest,
    length_renumberFrom]

theorem inBounds (h : Follows change cursor' cursor) : cursor'.inBounds = cursor.inBounds := by
  have hremaining := h.remaining
  rw [Bool.eq_iff_iff, inBounds_iff, inBounds_iff]
  omega

theorem current_error (h : Follows change cursor' cursor) {error : ParseError}
    (hinside : cursor.inBounds = true) (hcurrent : cursor.current = .error error) :
    cursor'.current = .error (error.relabel change) := by
  have hoffset : change.place cursor.offset = cursor'.offset := h.offset 0
  cases hrest : cursor.rest with
  | nil => simp [Cursor.inBounds, hrest] at hinside
  | cons first following =>
      obtain ⟨rest, hlength, hrenumbered⟩ :=
        exists_renumberFrom_cons change.opcode first following
      have hrest' := h.rest
      rw [hrest, hrenumbered] at hrest'
      rw [cursor.current_eq hrest] at hcurrent
      rw [cursor'.current_eq hrest', Instruction.opcodeOf_firstWord,
        Instruction.countOf_firstWord _ _ (Instruction.countOf_lt first), hlength, h.remaining]
      split_ifs at hcurrent ⊢ with hzero hlong
      · obtain rfl := Except.error.inj hcurrent
        simp only [ParseError.relabel, hoffset, Option.map_some]
      · obtain rfl := Except.error.inj hcurrent
        simp only [ParseError.relabel, hoffset, Option.map_some]

theorem current_ok (h : Follows change cursor' cursor) {insn : Instruction}
    (hcurrent : cursor.current = .ok insn) :
    cursor'.current = .ok (insn.relabel change) ∧
      Follows change (cursor'.skip insn.wordCount) (cursor.skip insn.wordCount) := by
  obtain ⟨hoffset, hcount, following, hfollowing⟩ := (cursor.current_eq_ok_iff insn).mp hcurrent
  have hrest : cursor'.rest = (insn.relabel change).words ++
      renumberFrom change.opcode following := by
    rw [h.rest, ← hfollowing, renumberFrom_words insn hcount]
    rfl
  refine ⟨(cursor'.current_eq_ok_iff _).mpr ⟨?_, hcount, ?_⟩, ?_, ?_⟩
  · rw [Instruction.relabel, hoffset]
    exact h.offset 0
  · rw [hrest]
    exact List.prefix_append _ _
  · intro count
    simp only [skip, Nat.add_assoc]
    exact h.offset _
  · have hlength : (insn.relabel change).words.length = insn.wordCount :=
      Instruction.length_words _
    simp only [skip]
    rw [hrest, ← hfollowing, List.drop_left' hlength, List.drop_left' insn.length_words]

end Follows

/-- A walk over a renumbered stream gives the instructions and the error of a walk over the stream
itself, with their places and opcodes changed. -/
theorem scanFrom_of_follows (h : Follows change cursor' cursor) :
    cursor'.scanFrom [] =
      ((cursor.scanFrom []).1.map (·.relabel change),
        (cursor.scanFrom []).2.map (·.relabel change)) := by
  refine scan_induction (motive := fun cursor insns ending => ∀ cursor' : Cursor,
    Follows change cursor' cursor → cursor'.scanFrom [] =
      (insns.map (·.relabel change), ending.map (·.relabel change)))
    ?finish ?fault ?step cursor cursor' h
  case finish =>
    intro cursor houtside cursor' h
    exact scanFrom_end _ _ (h.inBounds.trans houtside)
  case fault =>
    intro cursor error hinside hcurrent cursor' h
    exact scanFrom_error _ _ (h.inBounds.trans hinside) (h.current_error hinside hcurrent)
  case step =>
    intro cursor insn insns ending hinside hcurrent ih cursor' h
    obtain ⟨hcurrent', hskip⟩ := h.current_ok hcurrent
    have hrest := ih _ hskip
    have hcount : (insn.relabel change).wordCount = insn.wordCount := rfl
    rw [scanFrom_ok _ _ (h.inBounds.trans hinside) hcurrent', scanFrom_eq, hcount, hrest]
    rfl

end Cursor

/-- A renumbered module is walked as the module itself. -/
theorem follows_renumber (change : UInt16 → UInt16) (words : List Word) :
    (Cursor.ofWords (renumber change words)).Follows ⟨id, change⟩ (Cursor.ofWords words) where
  offset _ := rfl
  rest := drop_renumber words

end ShaderReflection
