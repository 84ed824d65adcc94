import Mathlib.Data.List.Forall2

/-!
Computations that may fail: what succeeds in the end has succeeded at every step.
-/

namespace ShaderReflection

variable {ε α β : Type}

@[simp] theorem ok_bind (value : α) (next : α → Except ε β) :
    (Except.ok value >>= next) = next value := rfl

@[simp] theorem error_bind (error : ε) (next : α → Except ε β) :
    (Except.error error >>= next) = .error error := rfl

theorem bind_eq_ok_iff {first : Except ε α} {next : α → Except ε β} {result : β} :
    (first >>= next) = .ok result ↔ ∃ value, first = .ok value ∧ next value = .ok result := by
  cases first with
  | error error =>
      constructor
      · intro h
        cases h
      · rintro ⟨_, h, -⟩
        cases h
  | ok value =>
      constructor
      · intro h
        exact ⟨value, rfl, h⟩
      · rintro ⟨_, hvalue, h⟩
        obtain rfl := Except.ok.inj hvalue
        exact h

theorem exists_of_isOk {outcome : Except ε α} (hok : outcome.isOk = true) :
    ∃ value, outcome = .ok value := by
  cases outcome with
  | error error => cases hok
  | ok value => exact ⟨value, rfl⟩

theorem eq_ok_of_toOption {outcome : Except ε α} {value : α}
    (h : outcome.toOption = some value) : outcome = .ok value := by
  cases outcome with
  | error error => cases h
  | ok other => exact congrArg _ (Option.some.inj h)

theorem bind_eq_error_iff {first : Except ε α} {next : α → Except ε β} {error : ε} :
    (first >>= next) = .error error ↔
      first = .error error ∨ ∃ value, first = .ok value ∧ next value = .error error := by
  cases first with
  | error other => simp
  | ok value => simp

/-- What follows a check is reached exactly if the check passes. -/
theorem check_bind_eq_ok_iff {check : Except ε Unit} {next : Unit → Except ε β} {result : β} :
    (check >>= next) = .ok result ↔ check = .ok () ∧ next () = .ok result := by
  rw [bind_eq_ok_iff]
  exact ⟨fun ⟨_, hcheck, hnext⟩ => ⟨hcheck, hnext⟩, fun ⟨hcheck, hnext⟩ => ⟨(), hcheck, hnext⟩⟩

theorem check_bind_eq_error_iff {check : Except ε Unit} {next : Unit → Except ε β} {error : ε} :
    (check >>= next) = .error error ↔
      check = .error error ∨ check = .ok () ∧ next () = .error error := by
  rw [bind_eq_error_iff]
  refine or_congr_right ?_
  exact ⟨fun ⟨_, hcheck, hnext⟩ => ⟨hcheck, hnext⟩, fun ⟨hcheck, hnext⟩ => ⟨(), hcheck, hnext⟩⟩

theorem mapError_eq_ok_iff {outcome : Except ε α} {change : ε → β} {value : α} :
    outcome.mapError change = .ok value ↔ outcome = .ok value := by
  cases outcome <;> simp [Except.mapError]

theorem mapError_bind {δ : Type} (first : Except ε α) (next : α → Except ε β) (change : ε → δ) :
    (first >>= next).mapError change =
      (first.mapError change >>= fun value => (next value).mapError change) := by
  cases first <;> rfl

theorem mapError_map {δ : Type} (outcome : Except ε α) (result : α → β) (change : ε → δ) :
    (outcome.map result).mapError change = (outcome.mapError change).map result := by
  cases outcome <;> rfl

theorem map_eq_error_iff {outcome : Except ε α} {change : α → β} {error : ε} :
    outcome.map change = .error error ↔ outcome = .error error := by
  cases outcome <;> simp [Except.map]

/-- Whether a computation fails at some item of a list after it has succeeded at all items before
it. -/
def FailsFirst (run : α → Except ε β) (items : List α) (error : ε) : Prop :=
  ∃ before item after, items = before ++ item :: after ∧
    (∀ earlier ∈ before, ∃ value, run earlier = .ok value) ∧ run item = .error error

theorem not_failsFirst_nil {run : α → Except ε β} {error : ε} : ¬ FailsFirst run [] error := by
  rintro ⟨before, item, after, hitems, -⟩
  simp at hitems

theorem failsFirst_cons_iff {run : α → Except ε β} {item : α} {rest : List α} {error : ε} :
    FailsFirst run (item :: rest) error ↔
      run item = .error error ∨ (∃ value, run item = .ok value) ∧ FailsFirst run rest error := by
  constructor
  · rintro ⟨before, failing, after, hitems, hbefore, hfailing⟩
    cases before with
    | nil =>
        obtain ⟨rfl, rfl⟩ := List.cons.inj hitems
        exact Or.inl hfailing
    | cons first before =>
        obtain ⟨rfl, rfl⟩ := List.cons.inj hitems
        rw [List.forall_mem_cons] at hbefore
        exact Or.inr ⟨hbefore.1, before, failing, after, rfl, hbefore.2, hfailing⟩
  · rintro (hfailing | ⟨hfirst, before, failing, after, rfl, hbefore, hfailing⟩)
    · exact ⟨[], item, rest, rfl, by simp, hfailing⟩
    · refine ⟨item :: before, failing, after, rfl, ?_, hfailing⟩
      rw [List.forall_mem_cons]
      exact ⟨hfirst, hbefore⟩

theorem forM_eq_error_iff {check : α → Except ε PUnit} {items : List α} {error : ε} :
    items.forM check = .error error ↔ FailsFirst check items error := by
  induction items with
  | nil => simp [not_failsFirst_nil, pure, Except.pure]
  | cons item rest ih =>
      change (check item >>= fun _ => rest.forM check) = .error error ↔ _
      rw [bind_eq_error_iff, failsFirst_cons_iff]
      simp only [ih, exists_and_right]

theorem forM_eq_ok_iff {check : α → Except ε Unit} {items : List α} :
    items.forM check = .ok () ↔ ∀ item ∈ items, check item = .ok () := by
  induction items with
  | nil => simp [pure, Except.pure]
  | cons item rest ih =>
      change (check item >>= fun _ => rest.forM check) = .ok () ↔ _
      rw [bind_eq_ok_iff, List.forall_mem_cons, ← ih]
      constructor
      · rintro ⟨_, hfirst, hrest⟩
        exact ⟨hfirst, hrest⟩
      · rintro ⟨hfirst, hrest⟩
        exact ⟨(), hfirst, hrest⟩

theorem exists_forall₂_iff {related : α → β → Prop} {items : List α} :
    (∃ values, List.Forall₂ related items values) ↔
      ∀ item ∈ items, ∃ value, related item value := by
  induction items with
  | nil => simp
  | cons item rest ih =>
      rw [List.forall_mem_cons, ← ih]
      constructor
      · rintro ⟨_, _ | ⟨hfirst, hothers⟩⟩
        exact ⟨⟨_, hfirst⟩, _, hothers⟩
      · rintro ⟨⟨first, hfirst⟩, others, hothers⟩
        exact ⟨first :: others, hothers.cons hfirst⟩

theorem mapM_eq_ok_iff {run : α → Except ε β} {items : List α} {values : List β} :
    items.mapM run = .ok values ↔
      List.Forall₂ (fun item value => run item = .ok value) items values := by
  induction items generalizing values with
  | nil =>
      rw [List.forall₂_nil_left_iff]
      simp [pure, Except.pure, eq_comm]
  | cons item rest ih =>
      rw [List.mapM_cons, bind_eq_ok_iff, List.forall₂_cons_left_iff]
      constructor
      · rintro ⟨first, hfirst, h⟩
        obtain ⟨others, hothers, h⟩ := bind_eq_ok_iff.mp h
        cases h
        exact ⟨first, others, hfirst, ih.mp hothers, rfl⟩
      · rintro ⟨first, others, hfirst, hothers, rfl⟩
        refine ⟨first, hfirst, bind_eq_ok_iff.mpr ⟨others, ih.mpr hothers, rfl⟩⟩

theorem mapM_eq_error_iff {run : α → Except ε β} {items : List α} {error : ε} :
    items.mapM run = .error error ↔ FailsFirst run items error := by
  induction items with
  | nil => simp [not_failsFirst_nil, pure, Except.pure]
  | cons item rest ih =>
      rw [List.mapM_cons, bind_eq_error_iff, failsFirst_cons_iff]
      simp [bind_eq_error_iff, ih, pure, Except.pure]

/-- A fold fails at an item if it succeeds up to that item, and the step from there fails. -/
theorem foldlM_eq_error_iff {step : β → α → Except ε β} {items : List α} {state : β} {error : ε} :
    items.foldlM step state = .error error ↔
      ∃ before item after between, items = before ++ item :: after ∧
        before.foldlM step state = .ok between ∧ step between item = .error error := by
  induction items generalizing state with
  | nil => simp [pure, Except.pure]
  | cons item rest ih =>
      rw [List.foldlM_cons, bind_eq_error_iff]
      constructor
      · rintro (hfirst | ⟨next, hfirst, hrest⟩)
        · exact ⟨[], item, rest, state, rfl, rfl, hfirst⟩
        · obtain ⟨before, failing, after, between, rfl, hbefore, hfailing⟩ := ih.mp hrest
          refine ⟨item :: before, failing, after, between, rfl, ?_, hfailing⟩
          rw [List.foldlM_cons, hfirst, ok_bind, hbefore]
      · rintro ⟨before, failing, after, between, hitems, hbefore, hfailing⟩
        cases before with
        | nil =>
            obtain ⟨rfl, rfl⟩ := List.cons.inj hitems
            obtain rfl := Except.ok.inj hbefore
            exact Or.inl hfailing
        | cons first before =>
            obtain ⟨rfl, rfl⟩ := List.cons.inj hitems
            rw [List.foldlM_cons] at hbefore
            obtain ⟨next, hfirst, hbefore⟩ := bind_eq_ok_iff.mp hbefore
            exact Or.inr ⟨next, hfirst,
              ih.mpr ⟨before, failing, after, between, rfl, hbefore, hfailing⟩⟩

theorem filterMapM_eq_error_iff {run : α → Except ε (Option β)} {items : List α} {error : ε} :
    items.filterMapM run = .error error ↔ FailsFirst run items error := by
  induction items with
  | nil => simp [not_failsFirst_nil, pure, Except.pure]
  | cons item rest ih =>
      rw [List.filterMapM_cons, bind_eq_error_iff, failsFirst_cons_iff]
      have hrest : ∀ first : Option β,
          (match first with
            | none => rest.filterMapM run
            | some value => do return value :: (← rest.filterMapM run)) = .error error ↔
          FailsFirst run rest error := by
        intro first
        rw [← ih]
        cases first with
        | none => rfl
        | some value => simp [bind_eq_error_iff, pure, Except.pure]
      refine or_congr_right ?_
      constructor
      · rintro ⟨first, hfirst, hfails⟩
        exact ⟨⟨first, hfirst⟩, (hrest first).mp hfails⟩
      · rintro ⟨⟨first, hfirst⟩, hfails⟩
        exact ⟨first, hfirst, (hrest first).mpr hfails⟩

theorem filterMapM_succeeds_iff {run : α → Except ε (Option β)} {items : List α} :
    (∃ values, items.filterMapM run = .ok values) ↔
      ∀ item ∈ items, ∃ value, run item = .ok value := by
  induction items with
  | nil => simp [pure, Except.pure]
  | cons item rest ih =>
      rw [List.filterMapM_cons, List.forall_mem_cons, ← ih]
      constructor
      · rintro ⟨values, hvalues⟩
        obtain ⟨first, hfirst, hvalues⟩ := bind_eq_ok_iff.mp hvalues
        refine ⟨⟨first, hfirst⟩, ?_⟩
        cases first with
        | none => exact ⟨values, hvalues⟩
        | some value =>
            obtain ⟨others, hothers, -⟩ := bind_eq_ok_iff.mp hvalues
            exact ⟨others, hothers⟩
      · rintro ⟨⟨first, hfirst⟩, others, hothers⟩
        rw [hfirst, ok_bind]
        cases first with
        | none => exact ⟨others, hothers⟩
        | some value => exact ⟨value :: others, by rw [hothers]; rfl⟩

end ShaderReflection
