import Mathlib.Data.Option.Basic
import Mathlib.Tactic.SplitIfs
import ShaderReflection.Proofs.Layout.Resolution
import ShaderReflection.Rendering

/-!
Rendering without a budget, and what a rendering takes from one. As long as the budget allows every
visit and every name on the way, a type is rendered as if there were no budget at all.
-/

namespace ShaderReflection

/-- The types that a shape mentions, in the order of their texts. -/
def TypeKind.mentioned : TypeKind → List Ident
  | vector part _ | array part _ | matrix part _ | pointer _ part | sampledImage part => [part]
  | struct members => members
  | _ => []

namespace Rendering

/-- The text of a member whose type has a text, after which its name stands if it is not empty. -/
def labelled (type name : String) : String :=
  if name.isEmpty then type else type ++ " " ++ name

section Texts

variable (m : ShaderModule)

/-- The texts of members of the struct `id`, the first of them at place `place`, from the texts of
their types. -/
def memberTexts (textOf : Ident → String) (id : Ident) : (place : Nat) → List Ident → List String
  | _, [] => []
  | place, member :: rest =>
      labelled (textOf member) (m.memberLabel id place) ::
        memberTexts textOf id (place + 1) rest

/-- The text of the type `id` with a shape, from the texts of the types that the shape mentions. -/
def frame (textOf : Ident → String) (id : Ident) (kind : TypeKind) : String :=
  match kind with
  | .void | .bool | .int .. | .float .. | .sampler => kind.displayName
  | .pointer _ pointee => "*" ++ textOf pointee
  | .vector component count => s!"vec<{textOf component}, {count}>"
  | .array element length => s!"{textOf element}[{m.arrayLength length}]"
  | .matrix column columns => s!"mat<{textOf column}, {columns}>"
  | .struct members => "\x7b " ++ ",".intercalate (memberTexts m textOf id 0 members) ++ " \x7d"
  | .image type => "Image" ++ type.dim.text ++ (if type.arrayed then "Array" else "")
  | .sampledImage image => s!"SampledImage<{textOf image}>"

/-- The text of a type below the types `path`, which may nest fewer than `levels` levels, without a
budget. -/
def reference : (levels : Nat) → (path : List Ident) → Ident → String
  | 0, path, id => if path.contains id then s!"<cycle %{id}>" else ellipsis
  | levels + 1, path, id =>
      if path.contains id then s!"<cycle %{id}>"
      else
        match m.kind? id with
        | none => "<unknown type>"
        | some kind => frame m (reference levels (id :: path)) id kind

end Texts

/-- A step of a rendering that the budget may refuse: to visit a type, to begin a member of a struct
and visit its type, or to copy a member's name. -/
inductive Step where
  | visit
  | member
  | name (text : String)
  deriving DecidableEq, Repr

namespace Step

/-- How many types a step visits. -/
def visits : Step → Nat
  | visit | member => 1
  | name _ => 0

/-- How many bytes of names a step copies. -/
def bytes : Step → Nat
  | visit | member => 0
  | name text => text.utf8ByteSize

/-- The budget after a step, unless the budget refuses the step. -/
def take (budget : Budget) : Step → Option Budget
  | visit => if budget.visit.overNodes then none else some budget.visit
  | member => if budget.isExhausted then none else some budget.visit
  | name text =>
      if (budget.copyName text).overNames then none else some (budget.copyName text)

end Step

/-- How many types some steps visit. -/
def visits (steps : List Step) : Nat := (steps.map Step.visits).sum

/-- How many bytes of names some steps copy. -/
def copied (steps : List Step) : Nat := (steps.map Step.bytes).sum

section Steps

variable (m : ShaderModule)

/-- The steps that take the name of a member. -/
def nameSteps (name : String) : List Step := if name.isEmpty then [] else [.name name]

/-- The steps for members of the struct `id`, the first of them at place `place`, from the steps
inside their types. -/
def memberSteps (insideOf : Ident → List Step) (id : Ident) :
    (place : Nat) → List Ident → List Step
  | _, [] => []
  | place, member :: rest =>
      .member :: (insideOf member ++ (nameSteps (m.memberLabel id place) ++
        memberSteps insideOf id (place + 1) rest))

/-- The steps inside the type `id` with a shape, from the steps inside the types that the shape
mentions. -/
def frameSteps (insideOf : Ident → List Step) (id : Ident) : TypeKind → List Step
  | .vector part _ | .array part _ | .matrix part _ | .pointer _ part | .sampledImage part =>
      .visit :: insideOf part
  | .struct members => memberSteps m insideOf id 0 members
  | _ => []

/-- The steps of a rendering after it has visited a type. -/
def inside : (levels : Nat) → (path : List Ident) → Ident → List Step
  | 0, _, _ => []
  | levels + 1, path, id =>
      if path.contains id then []
      else
        match m.kind? id with
        | none => []
        | some kind => frameSteps m (inside levels (id :: path)) id kind

/-- The steps of the rendering of a type. -/
def steps (id : Ident) : List Step := .visit :: inside m (maxLayoutDepth + 1) [] id

end Steps

section Runs

variable {m : ShaderModule} {budget budget' : Budget} {print : Ident → Session String}
  {textOf : Ident → String} {insideOf : Ident → List Step}

theorem foldlM_take_cons_eq_some_iff {step : Step} {rest : List Step} :
    (step :: rest).foldlM Step.take budget = some budget' ↔
      ∃ between, step.take budget = some between ∧
        rest.foldlM Step.take between = some budget' := by
  rw [List.foldlM_cons]
  exact Option.bind_eq_some_iff

theorem foldlM_take_append_eq_some_iff {first second : List Step} :
    (first ++ second).foldlM Step.take budget = some budget' ↔
      ∃ between, first.foldlM Step.take budget = some between ∧
        second.foldlM Step.take between = some budget' := by
  rw [List.foldlM_append]
  exact Option.bind_eq_some_iff

theorem take_visit_eq_some_iff :
    Step.take budget .visit = some budget' ↔
      ¬ budget.visit.overNodes ∧ budget' = budget.visit := by
  simp only [Step.take]
  split_ifs with hover <;> simp [hover, eq_comm]

theorem take_member_eq_some_iff :
    Step.take budget .member = some budget' ↔
      ¬ budget.isExhausted ∧ budget' = budget.visit := by
  simp only [Step.take]
  split_ifs with hexhausted <;> simp [hexhausted, eq_comm]

theorem take_name_eq_some_iff {text : String} :
    Step.take budget (.name text) = some budget' ↔
      ¬ (budget.copyName text).overNames ∧ budget' = budget.copyName text := by
  simp only [Step.take]
  split_ifs with hover <;> simp [hover, eq_comm]

/-- A member that may be begun may be visited. -/
theorem not_overNodes_of_not_isExhausted (h : ¬ budget.isExhausted) :
    ¬ budget.visit.overNodes := by
  simp only [Budget.isExhausted, Bool.or_eq_true, decide_eq_true_eq, not_or, Nat.not_le] at h
  exact Budget.not_overNodes_iff.mpr h.1

/-- Wherever a visit can be counted, the same is entered. -/
theorem run_enter_of_visit {μ : Type → Type} [Monad μ] [LawfulMonad μ] [Charging μ]
    (hvisit : Charging.visit budget = (pure budget.visit : μ Budget)) (path : List Ident)
    (id : Ident) :
    (enter path id : StateT Budget μ (Option String)).run budget = pure
      (if budget.visit.overNodes then some ellipsis
        else if path.contains id then some s!"<cycle %{id}>" else none, budget.visit) := by
  change (Charging.visit budget >>= fun _ => _) = _
  rw [hvisit, pure_bind]
  split_ifs <;> rfl

theorem run_enter (path : List Ident) (id : Ident) (budget : Budget) :
    (enter path id : Session (Option String)).run budget = pure
      (if budget.visit.overNodes then some ellipsis
        else if path.contains id then some s!"<cycle %{id}>" else none, budget.visit) :=
  run_enter_of_visit rfl path id

theorem run_takeName (name : String) (budget : Budget) :
    (takeName name : Session Unit).run budget = pure ((), budget.copyName name) := rfl

/-- Whether types are printed as given texts as long as the budget allows given steps. -/
def Prints (print : Ident → Session String) (textOf : Ident → String)
    (insideOf : Ident → List Step) : Prop :=
  ∀ part budget budget', (Step.visit :: insideOf part).foldlM Step.take budget = some budget' →
    (print part).run budget = pure (textOf part, budget')

theorem run_members_cons (print : Ident → Session String) (id : Ident) (place : Nat)
    (done : List String) (member : Ident) (rest : List Ident) (budget : Budget) :
    (members m print id place done (member :: rest)).run budget =
      if budget.isExhausted then pure ((ellipsis :: done).reverse, budget)
      else
        let (type, printed) := ((print member).run budget).run
        let name := m.memberLabel id place
        if name.isEmpty then (members m print id (place + 1) (type :: done) rest).run printed
        else if (printed.copyName name).overNames then
          pure ((ellipsis :: done).reverse, printed.copyName name)
        else (members m print id (place + 1) ((type ++ " " ++ name) :: done) rest).run
          (printed.copyName name) := by
  have hlabel : (m.memberName? id place.toUInt32).getD "" = m.memberLabel id place := rfl
  rw [members]
  simp only [StateT.run_bind, StateT.run_get, pure_bind, hlabel]
  by_cases hexhausted : budget.isExhausted
  · rw [if_pos hexhausted, if_pos hexhausted]
    rfl
  · have hprinted : (print member).run budget = pure ((print member).run budget).run := rfl
    rw [if_neg hexhausted, if_neg hexhausted, StateT.run_bind, hprinted, pure_bind]
    simp only [Id.run_pure]
    by_cases hempty : (m.memberLabel id place).isEmpty
    · rw [if_pos hempty, if_pos hempty]
    · rw [if_neg hempty, if_neg hempty]
      simp only [StateT.run_bind, run_takeName, StateT.run_get, pure_bind]
      split_ifs <;> rfl

theorem run_members (hprint : Prints print textOf insideOf) (id : Ident) {members : List Ident}
    {place : Nat} {done : List String}
    (hallows : (memberSteps m insideOf id place members).foldlM Step.take budget =
      some budget') :
    (Rendering.members m print id place done members).run budget =
      pure (done.reverse ++ memberTexts m textOf id place members, budget') := by
  induction members generalizing place done budget with
  | nil =>
      obtain rfl := Option.some.inj hallows
      rw [memberTexts, List.append_nil]
      rfl
  | cons member rest ih =>
      rw [memberSteps, foldlM_take_cons_eq_some_iff] at hallows
      obtain ⟨visited, hvisited, hallows⟩ := hallows
      rw [foldlM_take_append_eq_some_iff] at hallows
      obtain ⟨printed, hprinted, hallows⟩ := hallows
      rw [foldlM_take_append_eq_some_iff] at hallows
      obtain ⟨named, hnamed, hallows⟩ := hallows
      obtain ⟨hexhausted, rfl⟩ := take_member_eq_some_iff.mp hvisited
      have hrun := hprint member budget printed (foldlM_take_cons_eq_some_iff.mpr
        ⟨_, take_visit_eq_some_iff.mpr ⟨not_overNodes_of_not_isExhausted hexhausted, rfl⟩,
          hprinted⟩)
      rw [run_members_cons, if_neg hexhausted, hrun, memberTexts]
      simp only [Id.run_pure, labelled]
      rw [nameSteps] at hnamed
      by_cases hempty : (m.memberLabel id place).isEmpty
      · rw [if_pos hempty] at hnamed ⊢
        obtain rfl := Option.some.inj hnamed
        rw [if_pos hempty, ih hallows, List.reverse_cons, List.append_assoc]
        rfl
      · rw [if_neg hempty, foldlM_take_cons_eq_some_iff] at hnamed
        obtain ⟨copied, hcopied, hnamed⟩ := hnamed
        obtain rfl := Option.some.inj hnamed
        obtain ⟨hover, rfl⟩ := take_name_eq_some_iff.mp hcopied
        rw [if_neg hempty, if_neg hempty, if_neg hover, ih hallows, List.reverse_cons,
          List.append_assoc]
        rfl

theorem run_ofKind (hprint : Prints print textOf insideOf) (id : Ident) {kind : TypeKind}
    (hallows : (frameSteps m insideOf id kind).foldlM Step.take budget = some budget') :
    (ofKind m print id kind).run budget = pure (frame m textOf id kind, budget') := by
  have hpart : ∀ (part : Ident) (change : String → String),
      (Step.visit :: insideOf part).foldlM Step.take budget = some budget' →
        (do return change (← print part) : Session String).run budget =
          pure (change (textOf part), budget') := by
    intro part change hallows
    rw [StateT.run_bind, hprint part budget budget' hallows, pure_bind]
    rfl
  cases kind with
  | void | bool | int | float | image | sampler =>
      obtain rfl := Option.some.inj hallows
      rfl
  | vector part | array part | matrix part | sampledImage part => exact hpart part _ hallows
  | pointer _ part => exact hpart part _ hallows
  | struct ids =>
      have hmembers : (members m print id 0 [] ids).run budget =
          pure ([] ++ memberTexts m textOf id 0 ids, budget') :=
        run_members hprint id hallows
      rw [ofKind, StateT.run_bind, hmembers, pure_bind]
      rfl

/-- As long as the budget allows every step, a type is rendered as it is without a budget. -/
theorem run_render {levels : Nat} {path : List Ident} {id : Ident}
    (hallows : (Step.visit :: inside m levels path id).foldlM Step.take budget = some budget') :
    (render m levels path id : Session String).run budget =
      pure (reference m levels path id, budget') := by
  induction levels generalizing path id budget budget' with
  | zero =>
      obtain ⟨visited, hvisited, hallows⟩ := foldlM_take_cons_eq_some_iff.mp hallows
      obtain ⟨hover, rfl⟩ := take_visit_eq_some_iff.mp hvisited
      obtain rfl := Option.some.inj hallows
      rw [render, StateT.run_bind, run_enter, if_neg hover, pure_bind, reference]
      split_ifs <;> rfl
  | succ levels ih =>
      obtain ⟨visited, hvisited, hallows⟩ := foldlM_take_cons_eq_some_iff.mp hallows
      obtain ⟨hover, rfl⟩ := take_visit_eq_some_iff.mp hvisited
      rw [render, StateT.run_bind, run_enter, if_neg hover, pure_bind, reference]
      rw [inside] at hallows
      by_cases hcycle : path.contains id
      · rw [if_pos hcycle] at hallows
        obtain rfl := Option.some.inj hallows
        rw [if_pos hcycle, if_pos hcycle]
        rfl
      · rw [if_neg hcycle] at hallows
        rw [if_neg hcycle, if_neg hcycle]
        cases hkind : m.kind? id with
        | none =>
            rw [hkind] at hallows
            obtain rfl := Option.some.inj hallows
            rfl
        | some kind =>
            rw [hkind] at hallows
            have hprint : Prints (render m levels (id :: path)) (reference m levels (id :: path))
                (inside m levels (id :: path)) := fun part budget budget' hpart => ih hpart
            exact run_ofKind hprint id hallows

end Runs

end Rendering

end ShaderReflection
