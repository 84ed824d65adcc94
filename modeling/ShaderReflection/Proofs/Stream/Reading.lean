import ShaderReflection.Proofs.Stream.Tiling

/-!
Reading from a place on. Where whole instructions stand end to end, a walk reads each of them and
goes on behind the last, whatever stands there.
-/

namespace ShaderReflection

theorem consecutive_append_iff {place stop : Nat} {first second : List Instruction} :
    Consecutive place (first ++ second) stop ↔
      ∃ between, Consecutive place first between ∧ Consecutive between second stop := by
  induction first generalizing place with
  | nil => simp [Consecutive]
  | cons insn rest ih =>
      simp only [List.cons_append, Consecutive, ih]
      constructor
      · rintro ⟨hoffset, between, hrest, hsecond⟩
        exact ⟨between, ⟨hoffset, hrest⟩, hsecond⟩
      · rintro ⟨between, ⟨hoffset, hrest⟩, hsecond⟩
        exact ⟨hoffset, between, hrest, hsecond⟩

theorem Consecutive.stop_eq {place stop : Nat} {insns : List Instruction}
    (h : Consecutive place insns stop) :
    stop = place + (insns.flatMap Instruction.words).length := by
  induction insns generalizing place with
  | nil =>
      have hstop : place = stop := h
      simp [hstop]
  | cons insn rest ih =>
      have hrest := ih h.2
      have hlength := insn.length_words
      simp only [List.flatMap_cons, List.length_append]
      omega

/-- Instructions that follow each other from a place to another are the words between the two
exactly if their words stand at the first. -/
theorem Consecutive.encoded_iff {words : List Word} {place stop : Nat} {insns : List Instruction}
    (h : Consecutive place insns stop) :
    insns.flatMap Instruction.words = (words.take stop).drop place ↔
      insns.flatMap Instruction.words <+: words.drop place := by
  have hlength : stop - place = (insns.flatMap Instruction.words).length := by
    have hstop := h.stop_eq
    omega
  rw [List.drop_take, List.prefix_iff_eq_take, hlength]

namespace Cursor

/-- The cursor at a place of a stream. -/
def atPlace (words : List Word) (place : Nat) : Cursor := ⟨words, place, words.drop place, rfl⟩

theorem skip_atPlace (words : List Word) (place count : Nat) :
    (atPlace words place).skip count = atPlace words (place + count) := by
  simp only [atPlace, skip, List.drop_drop]

theorem ofWords_eq_atPlace (words : List Word) : ofWords words = atPlace words headerLength := rfl

theorem inBounds_atPlace_iff {words : List Word} {place : Nat} :
    (atPlace words place).inBounds = true ↔ place < words.length :=
  inBounds_iff _

theorem current_atPlace_eq_ok_iff {words : List Word} {place : Nat} {insn : Instruction} :
    (atPlace words place).current = .ok insn ↔
      insn.offset = place ∧ insn.wordCount < 65536 ∧ insn.words <+: words.drop place :=
  current_eq_ok_iff _ insn

theorem lt_length_of_insn {words : List Word} {place : Nat} {insn : Instruction}
    (hwords : insn.words <+: words.drop place) : place < words.length := by
  have hle := hwords.length_le
  have hlength := insn.length_words
  have hcount : insn.wordCount = insn.operands.length + 1 := rfl
  rw [List.length_drop] at hle
  omega

theorem scanFrom_insn {words : List Word} {place : Nat} {insn : Instruction}
    (hoffset : insn.offset = place) (hcount : insn.wordCount < 65536)
    (hwords : insn.words <+: words.drop place) :
    (atPlace words place).scanFrom [] =
      (insn :: ((atPlace words (place + insn.wordCount)).scanFrom []).1,
        ((atPlace words (place + insn.wordCount)).scanFrom []).2) := by
  have hinside := inBounds_atPlace_iff.mpr (lt_length_of_insn hwords)
  have hcurrent := current_atPlace_eq_ok_iff.mpr ⟨hoffset, hcount, hwords⟩
  rw [scanFrom_ok _ _ hinside hcurrent, scanFrom_eq, skip_atPlace]
  rfl

/-- The instructions that stand end to end from a place on are all read, and then what stands
behind them. -/
theorem scanFrom_consecutive {words : List Word} {place stop : Nat} {insns : List Instruction}
    (hconsecutive : Consecutive place insns stop)
    (hcounts : ∀ insn ∈ insns, insn.wordCount < 65536)
    (hwords : insns.flatMap Instruction.words <+: words.drop place) :
    (atPlace words place).scanFrom [] =
      (insns ++ ((atPlace words stop).scanFrom []).1, ((atPlace words stop).scanFrom []).2) := by
  induction insns generalizing place with
  | nil =>
      obtain rfl : place = stop := hconsecutive
      rfl
  | cons insn rest ih =>
      obtain ⟨hoffset, hconsecutive⟩ := hconsecutive
      rw [List.forall_mem_cons] at hcounts
      obtain ⟨after, hafter⟩ := hwords
      rw [List.flatMap_cons, List.append_assoc] at hafter
      have hfirst : insn.words <+: words.drop place := ⟨_, hafter⟩
      have hrest : rest.flatMap Instruction.words <+: words.drop (place + insn.wordCount) := by
        rw [← List.drop_drop, ← hafter, List.drop_left' insn.length_words]
        exact List.prefix_append _ _
      rw [scanFrom_insn hoffset hcounts.1 hfirst, ih hconsecutive hcounts.2 hrest]
      rfl

theorem scanFrom_outside {words : List Word} {place : Nat} (houtside : words.length ≤ place) :
    (atPlace words place).scanFrom [] = ([], none) := by
  have hend : (atPlace words place).inBounds = false := by
    rw [← Bool.not_eq_true, inBounds_atPlace_iff]
    omega
  exact scanFrom_end _ _ hend

/-- Nothing can be read at a place inside the stream exactly if the place is blocked. -/
theorem current_atPlace_eq_error_iff {words : List Word} {place : Nat} {error : ParseError}
    (hinside : place < words.length) :
    (atPlace words place).current = .error error ↔ Blocked words place error := by
  constructor
  · exact blocked_of_current _ (inBounds_atPlace_iff.mpr hinside)
  · rintro ⟨first, hfirst, hblocked⟩
    obtain ⟨following, hrest⟩ : ∃ following, words.drop place = first :: following := by
      rw [← List.head?_drop] at hfirst
      exact List.head?_eq_some_iff.mp hfirst
    have hlength : words.length - place = following.length + 1 := by
      rw [← List.length_drop, hrest, List.length_cons]
    rw [current_eq _ hrest]
    rcases hblocked with ⟨hzero, rfl⟩ | ⟨hlong, rfl⟩
    · rw [if_pos hzero]
      rfl
    · rw [if_neg (by omega), if_pos (by omega)]
      rfl

theorem Blocked.lt_length {words : List Word} {place : Nat} {error : ParseError}
    (h : Blocked words place error) : place < words.length := by
  obtain ⟨first, hfirst, -⟩ := h
  exact (List.getElem?_eq_some_iff.mp hfirst).1

theorem scanFrom_blocked {words : List Word} {place : Nat} {error : ParseError}
    (h : Blocked words place error) : (atPlace words place).scanFrom [] = ([], some error) :=
  scanFrom_error _ _ (inBounds_atPlace_iff.mpr h.lt_length)
    ((current_atPlace_eq_error_iff h.lt_length).mpr h)

end Cursor

end ShaderReflection
