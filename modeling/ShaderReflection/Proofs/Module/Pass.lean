import ShaderReflection.Proofs.Module.Records

/-!
Reading as one pass. Each instruction is applied to the module that the ones before it have built,
and the pass ends at the first instruction that is refused or that cannot be found.
-/

namespace ShaderReflection.ShaderModule

/-- Applies an instruction to the module that the ones before it have built. -/
def apply (context : Declaration.Context) (m : ShaderModule) (insn : Instruction) :
    Except ParseError ShaderModule :=
  (Declaration.ofInstruction context insn).map fun declared => declared.elim m m.declare

variable {context : Declaration.Context} {m m' : ShaderModule}

theorem apply_eq_ok_iff {insn : Instruction} :
    apply context m insn = .ok m' ↔
      ∃ declared, Declaration.ofInstruction context insn = .ok declared ∧
        m' = declared.elim m m.declare := by
  unfold apply
  cases Declaration.ofInstruction context insn with
  | error error => simp [Except.map]
  | ok declared => simp [Except.map, eq_comm]

/-- Applying instructions one by one is reading all their declarations and then adding these. -/
theorem foldlM_apply (context : Declaration.Context) (m : ShaderModule)
    (insns : List Instruction) :
    insns.foldlM (apply context) m =
      (insns.filterMapM (Declaration.ofInstruction context)).map (·.foldl declare m) := by
  induction insns generalizing m with
  | nil => rfl
  | cons insn rest ih =>
      rw [List.foldlM_cons, List.filterMapM_cons, apply]
      cases Declaration.ofInstruction context insn with
      | error error => rfl
      | ok declared =>
          cases declared with
          | none => exact ih m
          | some declaration =>
              refine (ih (m.declare declaration)).trans ?_
              cases rest.filterMapM (Declaration.ofInstruction context) <;> rfl

theorem parse_eq_pass (names : NameTable) (options : ParseOptions) (words : List Word) :
    parse names options words = (do
      let header ← parseHeader options words
      let m ← (scan words).1.foldlM (apply ⟨names, header.bound, options.checkIdBound⟩)
        (empty header)
      (scan words).2.elim (.ok m) .error) := by
  unfold parse
  refine congrArg _ (funext fun header => ?_)
  rw [foldlM_apply]
  unfold parseDeclarations
  obtain ⟨insns, ending⟩ := scan words
  simp only
  cases insns.filterMapM (Declaration.ofInstruction _) with
  | error error => rfl
  | ok declared => cases ending <;> rfl

/-- What a step keeps is kept by a pass over any number of instructions. -/
theorem foldlM_apply_induction {motive : ShaderModule → Prop}
    (hstep : ∀ m m' insn, motive m → apply context m insn = .ok m' → motive m')
    {insns : List Instruction} (hstart : motive m)
    (hpass : insns.foldlM (apply context) m = .ok m') : motive m' := by
  induction insns generalizing m with
  | nil =>
      obtain rfl := Except.ok.inj hpass
      exact hstart
  | cons insn rest ih =>
      rw [List.foldlM_cons] at hpass
      obtain ⟨between, hfirst, hrest⟩ := bind_eq_ok_iff.mp hpass
      exact ih (hstep m between insn hstart hfirst) hrest

end ShaderReflection.ShaderModule
