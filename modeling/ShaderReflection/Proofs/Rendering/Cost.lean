import ShaderReflection.Proofs.Layout.Success
import ShaderReflection.Proofs.Rendering.Truncation

/-!
What a rendering takes from a budget. Over a type that has a layout, a rendering visits the nodes of
its tree and copies the names of their members, as laying it out does. But a member may only be
begun while there is room for a further byte of names.
-/

namespace ShaderReflection.Rendering

/-- Whether there is room for a further byte of names whenever a member is begun, after some bytes
of names. -/
def Room (bytes : Nat) (steps : List Step) : Prop :=
  ∀ before after, steps = before ++ .member :: after → bytes + copied before < maxNameBytes

section Sums

theorem visits_append (first second : List Step) :
    visits (first ++ second) = visits first + visits second := by
  rw [visits, visits, visits, List.map_append, List.sum_append]

theorem copied_append (first second : List Step) :
    copied (first ++ second) = copied first + copied second := by
  rw [copied, copied, copied, List.map_append, List.sum_append]

theorem visits_cons (step : Step) (rest : List Step) :
    visits (step :: rest) = step.visits + visits rest := rfl

theorem copied_cons (step : Step) (rest : List Step) :
    copied (step :: rest) = step.bytes + copied rest := rfl

end Sums

section Budgets

variable {budget budget' : Budget}

theorem room_cons_iff {bytes : Nat} {step : Step} {rest : List Step} :
    Room bytes (step :: rest) ↔
      (step = .member → bytes < maxNameBytes) ∧ Room (bytes + step.bytes) rest := by
  constructor
  · intro hroom
    constructor
    · rintro rfl
      exact hroom [] rest rfl
    · rintro before after rfl
      rw [Nat.add_assoc, ← copied_cons]
      exact hroom (step :: before) after rfl
  · rintro ⟨hfirst, hrest⟩ before after hsteps
    cases before with
    | nil => exact hfirst (List.cons.inj hsteps).1
    | cons first before =>
        obtain ⟨rfl, rfl⟩ := List.cons.inj hsteps
        rw [copied_cons, ← Nat.add_assoc]
        exact hrest before after rfl

theorem take_eq_some_iff (hwithin : budget.Within) {step : Step} :
    step.take budget = some budget' ↔
      budget' = budget.spend step.visits step.bytes ∧ budget'.Within ∧
        (step = .member → budget.nameBytes < maxNameBytes) := by
  have hvisit : budget.visit = budget.spend 1 0 := rfl
  cases step with
  | visit =>
      rw [take_visit_eq_some_iff, Budget.not_overNodes_iff, and_comm, hvisit]
      refine and_congr_right ?_
      rintro rfl
      exact ⟨fun hnodes => ⟨⟨hnodes, hwithin.2⟩, by rintro ⟨⟩⟩, fun h => h.1.1⟩
  | member =>
      rw [take_member_eq_some_iff, and_comm, hvisit]
      refine and_congr_right ?_
      rintro rfl
      simp only [Budget.isExhausted, Bool.or_eq_true, decide_eq_true_eq, not_or, Nat.not_le]
      exact ⟨fun h => ⟨⟨h.1, hwithin.2⟩, fun _ => h.2⟩, fun h => ⟨h.1.1, h.2 trivial⟩⟩
  | name text =>
      have hcopy : budget.copyName text = budget.spend 0 text.utf8ByteSize := rfl
      rw [take_name_eq_some_iff, Budget.not_overNames_iff, and_comm, hcopy]
      refine and_congr_right ?_
      rintro rfl
      exact ⟨fun hnames => ⟨⟨hwithin.1, hnames⟩, by rintro ⟨⟩⟩, fun h => h.1.2⟩

/-- A budget allows some steps exactly if it allows what they cost together, with room at every
member. -/
theorem foldlM_take_eq_some_iff (hwithin : budget.Within) {steps : List Step} :
    steps.foldlM Step.take budget = some budget' ↔
      budget' = budget.spend (visits steps) (copied steps) ∧ budget'.Within ∧
        Room budget.nameBytes steps := by
  induction steps generalizing budget with
  | nil =>
      constructor
      · intro h
        obtain rfl := Option.some.inj h
        exact ⟨rfl, hwithin, fun before after hsteps => by simp at hsteps⟩
      · rintro ⟨rfl, -⟩
        rfl
  | cons step rest ih =>
      rw [foldlM_take_cons_eq_some_iff, room_cons_iff]
      have hspend : budget.spend (visits (step :: rest)) (copied (step :: rest)) =
          (budget.spend step.visits step.bytes).spend (visits rest) (copied rest) :=
        (Budget.spend_spend ..).symm
      constructor
      · rintro ⟨between, hfirst, hrest⟩
        obtain ⟨rfl, hbetween, hmember⟩ := (take_eq_some_iff hwithin).mp hfirst
        obtain ⟨hspent, hwithin', hroom⟩ := (ih hbetween).mp hrest
        exact ⟨hspent.trans hspend.symm, hwithin', hmember, hroom⟩
      · rintro ⟨rfl, hwithin', hmember, hroom⟩
        have hbetween := (hspend ▸ hwithin').of_spend
        exact ⟨_, (take_eq_some_iff hwithin).mpr ⟨rfl, hbetween, hmember⟩,
          (ih hbetween).mpr ⟨hspend, hwithin', hroom⟩⟩

/-- A fresh budget allows some steps exactly if they keep within the limits. -/
theorem allowed_iff {steps : List Step} :
    (∃ budget, steps.foldlM Step.take {} = some budget) ↔
      visits steps ≤ maxTypeNodes ∧ copied steps ≤ maxNameBytes ∧ Room 0 steps := by
  have hfresh : Budget.Within {} := ⟨Nat.zero_le _, Nat.zero_le _⟩
  simp only [foldlM_take_eq_some_iff hfresh, exists_eq_left, Budget.Within, Budget.spend,
    Nat.zero_add, and_assoc]

end Budgets

section Steps

variable {m : ShaderModule} {insideOf : Ident → List Step}

theorem visits_nameSteps (name : String) : visits (nameSteps name) = 0 := by
  unfold nameSteps
  split_ifs <;> rfl

theorem copied_nameSteps (name : String) : copied (nameSteps name) = name.utf8ByteSize := by
  unfold nameSteps
  split_ifs with hempty
  · rw [String.isEmpty_iff.mp hempty]
    rfl
  · exact Nat.add_zero _

theorem visits_memberSteps (id : Ident) (place : Nat) (members : List Ident) :
    visits (memberSteps m insideOf id place members) =
      (members.map fun member => 1 + visits (insideOf member)).sum := by
  induction members generalizing place with
  | nil => rfl
  | cons member rest ih =>
      rw [memberSteps, visits_cons, visits_append, visits_append, visits_nameSteps, ih,
        List.map_cons, List.sum_cons, Step.visits]
      omega

theorem copied_memberSteps (id : Ident) (place : Nat) (members : List Ident) :
    copied (memberSteps m insideOf id place members) =
      (members.map fun member => copied (insideOf member)).sum +
        ((m.labels id place members.length).map (·.utf8ByteSize)).sum := by
  induction members generalizing place with
  | nil => rfl
  | cons member rest ih =>
      rw [memberSteps, copied_cons, copied_append, copied_append, copied_nameSteps, ih,
        List.map_cons, List.sum_cons, List.length_cons, ShaderModule.labels_succ, List.map_cons,
        List.sum_cons, Step.bytes]
      omega

theorem visits_frameSteps (id : Ident) (kind : TypeKind) :
    visits (frameSteps m insideOf id kind) =
      (kind.mentioned.map fun part => 1 + visits (insideOf part)).sum := by
  cases kind with
  | struct members => exact visits_memberSteps id 0 members
  | _ => rfl

theorem copied_frameSteps {id : Ident} {kind : TypeKind} (hkind : m.kind? id = some kind) :
    copied (frameSteps m insideOf id kind) =
      (kind.mentioned.map fun part => copied (insideOf part)).sum + m.labelBytes id := by
  cases kind with
  | struct members =>
      rw [ShaderModule.labelBytes_of_struct hkind]
      exact copied_memberSteps id 0 members
  | _ =>
      rw [ShaderModule.labelBytes_of_not_struct (by simp [hkind])]
      simp [frameSteps, TypeKind.mentioned, copied_cons, Step.bytes] <;> rfl

theorem memberSteps_append (id : Ident) (place : Nat) (members members' : List Ident) :
    memberSteps m insideOf id place (members ++ members') =
      memberSteps m insideOf id place members ++
        memberSteps m insideOf id (place + members.length) members' := by
  induction members generalizing place with
  | nil => rfl
  | cons member rest ih =>
      have hplace : place + (member :: rest).length = place + 1 + rest.length := by
        rw [List.length_cons]
        omega
      simp only [List.cons_append, memberSteps, ih, hplace, List.append_assoc]

/-- The steps for one more member without a name, after equal ones, are added at the end. -/
theorem memberSteps_replicate_succ (insideOf : Ident → List Step) (id member : Ident) (times : Nat)
    (hlabel : m.memberLabel id (0 + times) = "") :
    memberSteps m insideOf id 0 (List.replicate (times + 1) member) =
      memberSteps m insideOf id 0 (List.replicate times member) ++ .member :: insideOf member := by
  rw [List.replicate_succ', memberSteps_append, List.length_replicate, memberSteps, hlabel]
  simp [memberSteps, nameSteps]

end Steps

section Trees

open ShaderModule

variable {m : ShaderModule} {id : Ident} {layout : Layout}

theorem length_nodes_succ (levels : Nat) (id : Ident) :
    (m.nodes (levels + 1) id).length =
      1 + ((m.parts id).map fun part => (m.nodes levels part).length).sum := by
  rw [nodes, List.length_cons, List.length_flatMap, Nat.add_comm]

theorem sum_labelBytes_nodes_succ (levels : Nat) (id : Ident) :
    ((m.nodes (levels + 1) id).map m.labelBytes).sum =
      m.labelBytes id +
        ((m.parts id).map fun part => ((m.nodes levels part).map m.labelBytes).sum).sum := by
  rw [nodes, List.map_cons, List.sum_cons, List.map_flatMap, List.flatMap_def, List.sum_flatten,
    List.map_map]
  rfl

/-- The shape of a type that has a layout mentions the parts of the type. -/
theorem mentioned_of_hasLayout (hlayout : m.HasLayout id layout) {kind : TypeKind}
    (hkind : m.kind? id = some kind) : kind.mentioned = m.parts id := by
  cases kind with
  | pointer storage pointee => exact absurd hlayout (not_hasLayout_pointer hkind)
  | _ => simp [TypeKind.mentioned, parts, hkind]

/-- A type that has a layout unfolds below types that are not part of it. -/
theorem unfolds_of_hasLayout {levels : Nat} {path : List Ident} (hlayout : m.HasLayout id layout)
    (hshallow : m.level levels id = []) (hpath : ∀ node, m.InTree id node → node ∉ path) :
    Unfolds m levels path id := by
  induction levels generalizing id layout path with
  | zero => cases hshallow
  | succ levels ih =>
      refine ⟨hpath id (.self m id), fun kind hkind part hpart => ?_⟩
      rw [mentioned_of_hasLayout hlayout hkind] at hpart
      obtain ⟨partLayout, hpartLayout⟩ := hlayout.of_part hpart
      refine ih hpartLayout (level_succ_eq_nil_iff.mp hshallow part hpart) fun node hnode => ?_
      have hnodePath := hpath node (hnode.of_part hpart)
      rw [List.mem_cons, not_or]
      refine ⟨?_, hnodePath⟩
      -- A part that leads back to the type would give its tree nodes at every depth.
      rintro rfl
      obtain ⟨period, hperiod⟩ := hnode
      exact not_shallow_of_cycle (.self m node) (mem_level_succ.mpr ⟨part, hpart, hperiod⟩)
        (level_eq_nil_iff_shallow.mp hshallow)

/-- Rendering a type that has a layout visits each node of its tree and copies the names of its
members. -/
theorem cost_of_hasLayout {levels : Nat} {path : List Ident} (hlayout : m.HasLayout id layout)
    (hshallow : m.level levels id = []) (hunfolds : Unfolds m levels path id) :
    1 + visits (inside m levels path id) = (m.nodes levels id).length ∧
      copied (inside m levels path id) = ((m.nodes levels id).map m.labelBytes).sum := by
  induction levels generalizing id layout path with
  | zero => cases hshallow
  | succ levels ih =>
      obtain ⟨hpath, hunfolds⟩ := hunfolds
      rw [inside, if_neg (by simpa using hpath), length_nodes_succ, sum_labelBytes_nodes_succ]
      cases hkind : m.kind? id with
      | none =>
          have hparts : m.parts id = [] := by simp [parts, hkind]
          have hbytes : m.labelBytes id = 0 := by simp [labelBytes, hkind]
          rw [hparts, hbytes]
          exact ⟨rfl, rfl⟩
      | some kind =>
          have hparts := mentioned_of_hasLayout hlayout hkind
          have hcost : ∀ part ∈ m.parts id,
              1 + visits (inside m levels (id :: path) part) = (m.nodes levels part).length ∧
                copied (inside m levels (id :: path) part) =
                  ((m.nodes levels part).map m.labelBytes).sum := by
            intro part hpart
            obtain ⟨_, hpartLayout⟩ := hlayout.of_part hpart
            exact ih hpartLayout (level_succ_eq_nil_iff.mp hshallow part hpart)
              (hunfolds kind hkind part (hparts ▸ hpart))
          rw [visits_frameSteps, copied_frameSteps hkind, hparts,
            List.map_congr_left fun part hpart => (hcost part hpart).1,
            List.map_congr_left fun part hpart => (hcost part hpart).2]
          exact ⟨rfl, Nat.add_comm _ _⟩

end Trees

end ShaderReflection.Rendering
