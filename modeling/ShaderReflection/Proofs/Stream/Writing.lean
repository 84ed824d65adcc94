import ShaderReflection.Proofs.Stream.Reading

/-!
Streams that are written instruction by instruction. A walk over one of them finds the instructions
again, each at the place where its words begin.
-/

namespace ShaderReflection

/-- The words of instructions with the given opcodes and operands. -/
def written (codes : List (UInt16 × List Word)) : List Word :=
  codes.flatMap fun code => Instruction.encode code.1 code.2

theorem written_cons_append (code : UInt16 × List Word) (codes : List (UInt16 × List Word))
    (tail : List Word) :
    written (code :: codes) ++ tail =
      Instruction.encode code.1 code.2 ++ (written codes ++ tail) := by
  rw [written, List.flatMap_cons, List.append_assoc]
  rfl

namespace Instruction

/-- Instructions with the given opcodes and operands, laid end to end from a place on. -/
def placed (place : Nat) : List (UInt16 × List Word) → List Instruction
  | [] => []
  | (opcode, operands) :: rest =>
      ⟨place, opcode, operands⟩ :: placed (place + (operands.length + 1)) rest

variable (place : Nat) (codes : List (UInt16 × List Word))

theorem flatMap_words_placed :
    (placed place codes).flatMap words = written codes := by
  induction codes generalizing place with
  | nil => rfl
  | cons code rest ih =>
      rw [placed, List.flatMap_cons, ih]
      rfl

theorem map_placed :
    (placed place codes).map (fun insn => (insn.opcode, insn.operands)) = codes := by
  induction codes generalizing place with
  | nil => rfl
  | cons code rest ih => rw [placed, List.map_cons, ih]

theorem consecutive_placed :
    ∃ stop, Consecutive place (placed place codes) stop := by
  induction codes generalizing place with
  | nil => exact ⟨place, rfl⟩
  | cons code rest ih =>
      obtain ⟨stop, hrest⟩ := ih (place + (code.2.length + 1))
      exact ⟨stop, rfl, hrest⟩

theorem operands_of_mem_placed {insn : Instruction} (hinsn : insn ∈ placed place codes) :
    (insn.opcode, insn.operands) ∈ codes := by
  have hmapped := List.mem_map_of_mem (f := fun insn => (insn.opcode, insn.operands)) hinsn
  rwa [map_placed] at hmapped

end Instruction

/-- A stream of a header and the words of instructions is scanned to exactly these instructions. -/
theorem scan_written (header : Header) {codes : List (UInt16 × List Word)}
    (hfits : ∀ code ∈ codes, code.2.length + 1 < 65536) :
    scan (header.words ++ written codes) = (Instruction.placed headerLength codes, none) := by
  rw [← Instruction.flatMap_words_placed headerLength codes]
  generalize hinsns : Instruction.placed headerLength codes = insns
  have hcounts : ∀ insn ∈ insns, insn.wordCount < 65536 := by
    intro insn hinsn
    rw [← hinsns] at hinsn
    exact hfits _ (Instruction.operands_of_mem_placed _ _ hinsn)
  obtain ⟨stop, hconsecutive⟩ := Instruction.consecutive_placed headerLength codes
  rw [hinsns] at hconsecutive
  have hstop := hconsecutive.stop_eq
  have hlength : (header.words ++ insns.flatMap Instruction.words).length ≤ stop := by
    rw [List.length_append, hstop]
    exact Nat.le_refl _
  have hwords : insns.flatMap Instruction.words <+:
      (header.words ++ insns.flatMap Instruction.words).drop headerLength :=
    List.prefix_refl _
  have hscan := Cursor.scanFrom_consecutive hconsecutive hcounts hwords
  rw [Cursor.scanFrom_outside hlength, List.append_nil] at hscan
  exact hscan

namespace Cursor

variable {cursor : Cursor} {code : UInt16 × List Word} {following : List Word}

/-- An instruction that was written is read where its words begin. -/
theorem current_of_rest (hfits : code.2.length + 1 < 65536)
    (hrest : cursor.rest = Instruction.encode code.1 code.2 ++ following) :
    cursor.current = .ok ⟨cursor.offset, code.1, code.2⟩ := by
  refine (cursor.current_eq_ok_iff _).mpr ⟨rfl, hfits, ?_⟩
  rw [hrest]
  exact List.prefix_append _ _

theorem rest_skip (hrest : cursor.rest = Instruction.encode code.1 code.2 ++ following) :
    (cursor.skip (code.2.length + 1)).rest = following := by
  have hlength : (Instruction.encode code.1 code.2).length = code.2.length + 1 := rfl
  simp only [skip, hrest]
  exact List.drop_left' hlength

end Cursor

end ShaderReflection
