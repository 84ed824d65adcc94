import Mathlib.Algebra.Order.BigOperators.Group.List
import Mathlib.Algebra.Order.Group.Nat
import ShaderReflection.Proofs.Fallible
import ShaderReflection.Proofs.Layout.Specification
import ShaderReflection.Proofs.Word

/-!
Resolving finds exactly the layouts that types have, as long as the depth and the budget allow. What
it takes from the budget depends on the tree of the type only.
-/

namespace ShaderReflection

namespace Budget

/-- Whether neither limit is passed. -/
def Within (budget : Budget) : Prop :=
  budget.visited ≤ maxTypeNodes ∧ budget.nameBytes ≤ maxNameBytes

/-- The budget after some more visits and bytes of names. -/
def spend (budget : Budget) (visits bytes : Nat) : Budget where
  visited := budget.visited + visits
  nameBytes := budget.nameBytes + bytes

/-- The budget after the visits of some nodes and the copies of all their member names. -/
def charge (budget : Budget) (m : ShaderModule) (nodes : List Ident) : Budget :=
  budget.spend nodes.length (nodes.map m.labelBytes).sum

/-- The budget after some members of a struct have been laid out and named, the first of them at
place `start`. -/
def chargeMembers (budget : Budget) (m : ShaderModule) (levels : Nat) (id : Ident) (start : Nat)
    (members : List Ident) : Budget :=
  (budget.charge m (members.flatMap (m.nodes levels))).spend 0
    ((m.labels id start members.length).map (·.utf8ByteSize)).sum

theorem spend_spend (budget : Budget) (visits bytes visits' bytes' : Nat) :
    (budget.spend visits bytes).spend visits' bytes' =
      budget.spend (visits + visits') (bytes + bytes') := by
  simp only [spend, Nat.add_assoc]

theorem spend_zero (budget : Budget) : budget.spend 0 0 = budget := rfl

theorem charge_cons (budget : Budget) (m : ShaderModule) (id : Ident) (nodes : List Ident) :
    budget.charge m (id :: nodes) = (budget.spend 1 (m.labelBytes id)).charge m nodes := by
  simp only [charge, List.length_cons, List.map_cons, List.sum_cons, spend_spend, Nat.add_comm]

theorem charge_append (budget : Budget) (m : ShaderModule) (nodes nodes' : List Ident) :
    budget.charge m (nodes ++ nodes') = (budget.charge m nodes).charge m nodes' := by
  simp only [charge, List.length_append, List.map_append, List.sum_append, spend_spend]

theorem charge_spend (budget : Budget) (m : ShaderModule) (nodes : List Ident)
    (visits bytes : Nat) :
    (budget.spend visits bytes).charge m nodes = (budget.charge m nodes).spend visits bytes := by
  simp only [charge, spend_spend, Nat.add_comm]

theorem chargeMembers_nil (budget : Budget) (m : ShaderModule) (levels : Nat) (id : Ident)
    (start : Nat) : budget.chargeMembers m levels id start [] = budget := rfl

theorem chargeMembers_cons (budget : Budget) (m : ShaderModule) (levels : Nat) (id : Ident)
    (start : Nat) (member : Ident) (members : List Ident) :
    budget.chargeMembers m levels id start (member :: members) =
      ((budget.charge m (m.nodes levels member)).spend 0
        (m.memberLabel id start).utf8ByteSize).chargeMembers m levels id (start + 1) members := by
  rw [chargeMembers, chargeMembers, List.flatMap_cons, charge_append, charge_spend, spend_spend,
    List.length_cons, ShaderModule.labels_succ, List.map_cons, List.sum_cons]

theorem chargeMembers_append (budget : Budget) (m : ShaderModule) (levels : Nat) (id : Ident)
    (start : Nat) (members rest : List Ident) :
    budget.chargeMembers m levels id start (members ++ rest) =
      (budget.chargeMembers m levels id start members).chargeMembers m levels id
        (start + members.length) rest := by
  induction members generalizing budget start with
  | nil => rfl
  | cons member members ih =>
      rw [List.cons_append, chargeMembers_cons, chargeMembers_cons, ih, List.length_cons,
        Nat.add_right_comm, Nat.add_assoc]

/-- The cost of a tree is that of its root and of the trees below it. -/
theorem charge_nodes_succ (budget : Budget) (m : ShaderModule) (levels : Nat) (id : Ident) :
    budget.charge m (m.nodes (levels + 1) id) =
      ((budget.spend 1 0).charge m ((m.parts id).flatMap (m.nodes levels))).spend 0
        (m.labelBytes id) := by
  rw [ShaderModule.nodes, charge_cons, charge_spend, charge_spend, spend_spend, Nat.add_zero,
    Nat.zero_add]

theorem not_overNodes_iff {budget : Budget} :
    ¬ budget.overNodes ↔ budget.visited ≤ maxTypeNodes := by
  rw [overNodes, decide_eq_true_eq, Nat.not_lt]

theorem not_overNames_iff {budget : Budget} :
    ¬ budget.overNames ↔ budget.nameBytes ≤ maxNameBytes := by
  rw [overNames, decide_eq_true_eq, Nat.not_lt]

theorem Within.of_spend {budget : Budget} {visits bytes : Nat}
    (hwithin : (budget.spend visits bytes).Within) : budget.Within :=
  ⟨Nat.le_trans (Nat.le_add_right ..) hwithin.1, Nat.le_trans (Nat.le_add_right ..) hwithin.2⟩

theorem Within.of_charge {budget : Budget} {m : ShaderModule} {nodes : List Ident}
    (hwithin : (budget.charge m nodes).Within) : budget.Within :=
  hwithin.of_spend

theorem Within.not_overNodes_iff {budget : Budget} {visits : Nat} (hwithin : budget.Within) :
    ¬ (budget.spend visits 0).overNodes ↔ (budget.spend visits 0).Within := by
  rw [Budget.not_overNodes_iff]
  exact ⟨fun h => ⟨h, hwithin.2⟩, And.left⟩

theorem Within.not_overNames_iff {budget : Budget} {bytes : Nat} (hwithin : budget.Within) :
    ¬ (budget.spend 0 bytes).overNames ↔ (budget.spend 0 bytes).Within := by
  rw [Budget.not_overNames_iff]
  exact ⟨fun h => ⟨hwithin.1, h⟩, And.right⟩

end Budget

namespace Layout

open ShaderModule

section Queries

variable {α β : Type} {budget budget' : Budget}

theorem Query.run_bind_eq_ok_iff {first : Query α} {next : α → Query β} {result : β} :
    (first >>= next).run budget = .ok (result, budget') ↔
      ∃ value between, first.run budget = .ok (value, between) ∧
        (next value).run between = .ok (result, budget') := by
  rw [StateT.run_bind, bind_eq_ok_iff, Prod.exists]

theorem Query.run_pure_eq_ok_iff {value result : α} :
    (pure value : Query α).run budget = .ok (result, budget') ↔
      result = value ∧ budget' = budget := by
  constructor
  · intro h
    cases h
    exact ⟨rfl, rfl⟩
  · rintro ⟨rfl, rfl⟩
    rfl

theorem Query.run_throw_ne_ok {error : LayoutError} {result : α} :
    (throw error : Query α).run budget ≠ .ok (result, budget') := by
  intro h
  cases h

theorem Query.run_lift_eq_ok_iff {outcome : Except LayoutError α} {result : α} :
    (liftM outcome : Query α).run budget = .ok (result, budget') ↔
      outcome = .ok result ∧ budget' = budget := by
  cases outcome with
  | error error =>
      constructor
      · intro h
        cases h
      · rintro ⟨⟨⟩, -⟩
  | ok value =>
      constructor
      · intro h
        cases h
        exact ⟨rfl, rfl⟩
      · rintro ⟨⟨⟩, rfl⟩
        rfl

theorem check_eq_ok_iff (refused : Bool) {error : LayoutError} {spent : Budget} {result : Unit}
    (hrefused : ¬ refused ↔ spent.Within) :
    (if refused then Except.error error else .ok ((), spent)) = .ok (result, budget') ↔
      budget' = spent ∧ budget'.Within := by
  by_cases hwithin : spent.Within
  · rw [if_neg (hrefused.mpr hwithin)]
    constructor
    · intro h
      cases h
      exact ⟨rfl, hwithin⟩
    · rintro ⟨rfl, -⟩
      rfl
  · rw [if_pos (Decidable.not_not.mp (mt hrefused.mp hwithin))]
    constructor
    · intro h
      cases h
    · rintro ⟨rfl, h⟩
      exact absurd h hwithin

theorem visit_eq_ok_iff {id : Ident} {result : Unit} (hwithin : budget.Within) :
    (visit id : Query Unit).run budget = .ok (result, budget') ↔
      budget' = budget.spend 1 0 ∧ budget'.Within := by
  exact check_eq_ok_iff (budget.spend 1 0).overNodes hwithin.not_overNodes_iff

theorem copyName_eq_ok_iff {id : Ident} {name : String} {result : Unit} (hwithin : budget.Within) :
    (copyName id name : Query Unit).run budget = .ok (result, budget') ↔
      budget' = budget.spend 0 name.utf8ByteSize ∧ budget'.Within := by
  exact check_eq_ok_iff (budget.spend 0 name.utf8ByteSize).overNames hwithin.not_overNames_iff

theorem repeated_eq_ok_iff {id : Ident} {repetition : Repetition} {element layout : Layout} :
    repeated id repetition.shape repetition.name element (repetition.elementName element)
        repetition.count = .ok layout ↔
      ∃ size : Word, size.toNat = element.size.toNat * repetition.count.toNat ∧
        layout = repetition.layout element size := by
  unfold repeated
  simp only [← Word.mul?_eq_some_iff]
  cases Word.mul? element.size repetition.count with
  | none => simp
  | some size =>
      constructor
      · intro h
        cases h
        exact ⟨size, rfl, rfl⟩
      · rintro ⟨_, ⟨⟩, rfl⟩
        rfl

end Queries

section Resolve

variable {μ : Type → Type} [Monad μ] [Charging μ] [MonadExceptOf LayoutError μ]
  [MonadLiftT (Except LayoutError) μ] {m : ShaderModule} {levels : Nat} {id : Ident}

theorem resolve_succ (id : Ident) :
    (resolve m (levels + 1) id : StateT Budget μ Layout) = (do
      visit id
      match m.kind? id with
      | none => return .undefined
      | some kind => ofKind m (resolve m levels) id kind) := rfl

theorem resolve_of_leaf {layout : Layout}
    (hleaf : leafLayout? (m.kind? id) = some layout) :
    (resolve m (levels + 1) id : StateT Budget μ Layout) = (do
      visit id
      return layout) := by
  rw [resolve_succ]
  cases hkind : m.kind? id with
  | none =>
      rw [hkind] at hleaf
      obtain rfl := Option.some.inj hleaf
      rfl
  | some kind =>
      rw [hkind] at hleaf
      cases kind <;> cases hleaf <;> rfl

theorem resolve_of_repetition {repetition : Repetition}
    (hrepetition : m.repetition? id = some repetition) :
    (resolve m (levels + 1) id : StateT Budget μ Layout) = (do
      visit id
      let element ← resolve m levels repetition.base
      repeated id repetition.shape repetition.name element (repetition.elementName element)
        repetition.count) := by
  rw [resolve_succ]
  unfold repetition? at hrepetition
  split at hrepetition <;> cases hrepetition <;> simp only [*] <;> rfl

theorem resolve_of_sampledImage {base : Ident} (hkind : m.kind? id = some (.sampledImage base)) :
    (resolve m (levels + 1) id : StateT Budget μ Layout) = (do
      visit id
      let image ← resolve m levels base
      return .sampled image) := by
  rw [resolve_succ, hkind]
  rfl

theorem resolve_of_struct {members : List Ident} (hkind : m.kind? id = some (.struct members)) :
    (resolve m (levels + 1) id : StateT Budget μ Layout) = (do
      visit id
      let block ← members.foldlM (Block.add m (resolve m levels) id) {}
      return .struct block.size block.members.toList) := by
  rw [resolve_succ, hkind]
  rfl

theorem resolve_of_pointer {storage : StorageClass} {pointee : Ident}
    (hkind : m.kind? id = some (.pointer storage pointee)) :
    (resolve m (levels + 1) id : StateT Budget μ Layout) = (do
      visit id
      throw (.pointerType id)) := by
  rw [resolve_succ, hkind]
  rfl

end Resolve

/-- Whether a query gives exactly the layout of a type whose tree ends above a depth, and takes from
the budget what the tree costs. -/
def Finds (m : ShaderModule) (levels : Nat) (id : Ident) (query : Query Layout) : Prop :=
  ∀ ⦃layout budget budget'⦄, Budget.Within budget →
    (query.run budget = .ok (layout, budget') ↔
      m.HasLayout id layout ∧ m.level levels id = [] ∧
      budget' = budget.charge m (m.nodes levels id) ∧ budget'.Within)

/-- Whether a query gives exactly the layout of a type once it has been visited, where the trees of
the parts end above a depth. -/
def Completes (m : ShaderModule) (levels : Nat) (id : Ident) (query : Query Layout) : Prop :=
  ∀ ⦃layout budget budget'⦄, Budget.Within budget →
    (query.run budget = .ok (layout, budget') ↔
      m.HasLayout id layout ∧ (∀ part ∈ m.parts id, m.level levels part = []) ∧
      budget' = (budget.charge m ((m.parts id).flatMap (m.nodes levels))).spend 0
        (m.labelBytes id) ∧ budget'.Within)

/-- Whether layouts are found for all types whose trees end above a depth. -/
def Resolves (m : ShaderModule) (levels : Nat) (layoutOf : Ident → Query Layout) : Prop :=
  ∀ id, Finds m levels id (layoutOf id)

section Members

variable {m : ShaderModule} {levels : Nat} {layoutOf : Ident → Query Layout} {id : Ident}

theorem Block.add_eq_ok_iff (hresolves : Resolves m levels layoutOf) {block block' : Block}
    {member : Ident} {budget budget' : Budget} (hwithin : budget.Within) :
    (Block.add m layoutOf id block member).run budget = .ok (block', budget') ↔
      ∃ entry : Member Layout,
        (entry.typeId = member ∧ entry.name = m.memberLabel id block.members.size ∧
          m.kind? member = some entry.kind) ∧
        m.HasLayout member entry.layout ∧ m.level levels member = [] ∧
        (block'.members = block.members.push entry ∧
          block'.size.toNat = block.size.toNat + entry.layout.size.toNat) ∧
        budget' =
          (budget.charge m (m.nodes levels member)).spend 0 entry.name.utf8ByteSize ∧
        budget'.Within := by
  unfold Block.add
  cases hkind : m.kind? member with
  | none =>
      constructor
      · intro h
        cases h
      · rintro ⟨_, ⟨-, -, ⟨⟩⟩, -⟩
  | some kind =>
      simp only [Query.run_bind_eq_ok_iff, hresolves member hwithin]
      constructor
      · rintro ⟨layout, _, ⟨hlayout, hshallow, rfl, hcharged⟩, _, _, hcopy, hsum⟩
        rw [copyName_eq_ok_iff hcharged] at hcopy
        obtain ⟨rfl, hcopied⟩ := hcopy
        cases hsize : Word.add? block.size layout.size with
        | none =>
            rw [hsize] at hsum
            cases hsum
        | some size =>
            rw [hsize] at hsum
            cases hsum
            exact ⟨⟨m.memberLabel id block.members.size, member, kind, layout⟩, ⟨rfl, rfl, rfl⟩,
              hlayout, hshallow, ⟨rfl, Word.add?_eq_some_iff.mp hsize⟩, rfl, hcopied⟩
      · rintro ⟨⟨name, _, _, layout⟩, ⟨rfl, rfl, ⟨⟩⟩, hlayout, hshallow, ⟨hmembers, hsize⟩, rfl,
          hcopied⟩
        have hcharged := hcopied.of_spend
        refine ⟨layout, _, ⟨hlayout, hshallow, rfl, hcharged⟩, (), _,
          (copyName_eq_ok_iff hcharged).mpr ⟨rfl, hcopied⟩, ?_⟩
        rw [Word.add?_eq_some_iff.mpr hsize]
        cases block'
        cases hmembers
        rfl

/-- Laying out the members one after the other gives the entries of all of them, adds up their
sizes, and costs the trees below them and their names. -/
theorem Block.foldlM_add_eq_ok_iff (hresolves : Resolves m levels layoutOf) {members : List Ident}
    {block block' : Block} {budget budget' : Budget} (hwithin : budget.Within) :
    (members.foldlM (Block.add m layoutOf id) block).run budget = .ok (block', budget') ↔
      ∃ entries, m.Entries id block.members.size members entries ∧
        (∀ entry ∈ entries, m.HasLayout entry.typeId entry.layout) ∧
        (∀ member ∈ members, m.level levels member = []) ∧
        (block'.members = block.members ++ entries.toArray ∧
          block'.size.toNat =
            block.size.toNat + (entries.map (·.layout.size.toNat)).sum) ∧
        budget' = budget.chargeMembers m levels id block.members.size members ∧
        budget'.Within := by
  induction members generalizing block budget with
  | nil =>
      rw [List.foldlM_nil, Query.run_pure_eq_ok_iff, Budget.chargeMembers_nil]
      constructor
      · rintro ⟨rfl, rfl⟩
        exact ⟨[], entries_nil_iff.mpr rfl, by simp, by simp, by simp, rfl, hwithin⟩
      · rintro ⟨entries, hentries, -, -, ⟨hmembers, hsize⟩, rfl, -⟩
        rw [entries_nil_iff] at hentries
        subst hentries
        cases block
        cases block'
        simp_all [← UInt32.toNat_inj]
  | cons member members ih =>
      rw [List.foldlM_cons, Query.run_bind_eq_ok_iff, Budget.chargeMembers_cons]
      constructor
      · rintro ⟨block₁, budget₁, hadd, hrest⟩
        rw [Block.add_eq_ok_iff hresolves hwithin] at hadd
        obtain ⟨entry, ⟨rfl, hname, hkind⟩, hlayout, hshallow, ⟨hmembers₁, hsize₁⟩, rfl,
          hwithin₁⟩ := hadd
        have hstart : block₁.members.size = block.members.size + 1 := by
          rw [hmembers₁, Array.size_push]
        rw [ih hwithin₁, hstart, hname] at hrest
        obtain ⟨entries, hentries, hlayouts, hshallows, ⟨hmembers, hsize⟩, hbudget, hwithin'⟩ :=
          hrest
        refine ⟨entry :: entries,
          entries_cons_iff.mpr ⟨rfl, hname, hkind, hentries⟩,
          List.forall_mem_cons.mpr ⟨hlayout, hlayouts⟩,
          List.forall_mem_cons.mpr ⟨hshallow, hshallows⟩, ⟨?_, ?_⟩, hbudget, hwithin'⟩
        · simp [hmembers, hmembers₁]
        · simp only [List.map_cons, List.sum_cons]
          omega
      · rintro ⟨entries, hentries, hlayouts, hshallows, ⟨hmembers, hsize⟩, hbudget, hwithin'⟩
        obtain _ | ⟨entry, entries⟩ := entries
        · cases hentries.types
        rw [entries_cons_iff] at hentries
        obtain ⟨rfl, hname, hkind, hentries⟩ := hentries
        rw [List.forall_mem_cons] at hlayouts hshallows
        rw [List.map_cons, List.sum_cons] at hsize
        have hwithin₁ := (hbudget ▸ hwithin').of_spend.of_charge
        have hfits : block.size.toNat + entry.layout.size.toNat < UInt32.size := by
          have := block'.size.toNat_lt_size
          omega
        obtain ⟨size₁, hsize₁⟩ := Word.exists_toNat_eq hfits
        refine ⟨⟨size₁, block.members.push entry⟩, _,
          (Block.add_eq_ok_iff hresolves hwithin).mpr ⟨entry, ⟨rfl, hname, hkind⟩, hlayouts.1,
            hshallows.1, ⟨rfl, hsize₁⟩, by rw [hname], hwithin₁⟩,
          (ih hwithin₁).mpr ⟨entries, ?_, hlayouts.2, hshallows.2, ⟨?_, ?_⟩, ?_, hwithin'⟩⟩
        · simpa using hentries
        · simp [hmembers]
        · simp only [hsize₁, hsize, Nat.add_assoc]
        · rw [Array.size_push, hbudget]

end Members

section Cases

variable {m : ShaderModule} {levels : Nat} {layoutOf : Ident → Query Layout} {id : Ident}

theorem Completes.finds {query : Query Layout} (hcompletes : Completes m levels id query) :
    Finds m (levels + 1) id (do
      visit id
      query) := by
  intro layout budget budget' hwithin
  rw [Budget.charge_nodes_succ, level_succ_eq_nil_iff, Query.run_bind_eq_ok_iff]
  constructor
  · rintro ⟨_, between, hvisit, hquery⟩
    rw [visit_eq_ok_iff hwithin] at hvisit
    obtain ⟨rfl, hvisited⟩ := hvisit
    exact (hcompletes hvisited).mp hquery
  · rintro ⟨hlayout, hshallow, hbudget, hwithin'⟩
    have hvisited := (hbudget ▸ hwithin').of_spend.of_charge
    exact ⟨(), _, (visit_eq_ok_iff hwithin).mpr ⟨rfl, hvisited⟩,
      (hcompletes hvisited).mpr ⟨hlayout, hshallow, hbudget, hwithin'⟩⟩

theorem completes_leaf {leaf : Layout} (hleaf : leafLayout? (m.kind? id) = some leaf) :
    Completes m levels id (pure leaf) := by
  intro layout budget budget' hwithin
  have hbytes : m.labelBytes id = 0 :=
    labelBytes_of_not_struct fun members hkind => by
      rw [hkind] at hleaf
      cases hleaf
  rw [Query.run_pure_eq_ok_iff, hasLayout_leaf_iff hleaf,
    parts_of_leaf (leafSize_of_leafLayout hleaf), hbytes]
  constructor
  · rintro ⟨rfl, rfl⟩
    exact ⟨rfl, List.forall_mem_nil _, rfl, hwithin⟩
  · rintro ⟨rfl, -, rfl, -⟩
    exact ⟨rfl, rfl⟩

theorem completes_repetition (hresolves : Resolves m levels layoutOf) {repetition : Repetition}
    (hrepetition : m.repetition? id = some repetition) :
    Completes m levels id (do
      let element ← layoutOf repetition.base
      repeated id repetition.shape repetition.name element (repetition.elementName element)
        repetition.count) := by
  intro layout budget budget' hwithin
  have hbytes : m.labelBytes id = 0 :=
    labelBytes_of_not_struct fun members hkind => by
      simp [repetition?, hkind] at hrepetition
  simp only [Query.run_bind_eq_ok_iff, hresolves _ hwithin, Query.run_lift_eq_ok_iff,
    repeated_eq_ok_iff, hasLayout_repetition_iff hrepetition,
    parts_of_repetition hrepetition, List.forall_mem_singleton,
    List.flatMap_singleton, hbytes, Budget.spend_zero]
  constructor
  · rintro ⟨element, _, ⟨hlayout, hshallow, rfl, hwithin'⟩, ⟨size, hsize, rfl⟩, rfl⟩
    exact ⟨⟨element, size, hlayout, hsize, rfl⟩, hshallow, rfl, hwithin'⟩
  · rintro ⟨⟨element, size, hlayout, hsize, rfl⟩, hshallow, rfl, hwithin'⟩
    exact ⟨element, _, ⟨hlayout, hshallow, rfl, hwithin'⟩, ⟨size, hsize, rfl⟩, rfl⟩

theorem completes_sampledImage (hresolves : Resolves m levels layoutOf) {base : Ident}
    (hkind : m.kind? id = some (.sampledImage base)) :
    Completes m levels id (do
      let image ← layoutOf base
      return .sampled image) := by
  intro layout budget budget' hwithin
  have hbytes : m.labelBytes id = 0 :=
    labelBytes_of_not_struct fun members hstruct => by simp [hkind] at hstruct
  simp only [Query.run_bind_eq_ok_iff, hresolves _ hwithin, Query.run_pure_eq_ok_iff,
    hasLayout_sampledImage_iff hkind, parts_of_sampledImage hkind,
    List.forall_mem_singleton, List.flatMap_singleton, hbytes, Budget.spend_zero]
  constructor
  · rintro ⟨image, _, ⟨hlayout, hshallow, rfl, hwithin'⟩, rfl, rfl⟩
    exact ⟨⟨image, hlayout, rfl⟩, hshallow, rfl, hwithin'⟩
  · rintro ⟨⟨image, hlayout, rfl⟩, hshallow, rfl, hwithin'⟩
    exact ⟨image, _, ⟨hlayout, hshallow, rfl, hwithin'⟩, rfl, rfl⟩

theorem completes_struct (hresolves : Resolves m levels layoutOf) {members : List Ident}
    (hkind : m.kind? id = some (.struct members)) :
    Completes m levels id (do
      let block ← members.foldlM (Block.add m layoutOf id) {}
      return .struct block.size block.members.toList) := by
  intro layout budget budget' hwithin
  simp only [Query.run_bind_eq_ok_iff, Block.foldlM_add_eq_ok_iff hresolves hwithin,
    Query.run_pure_eq_ok_iff, hasLayout_struct_iff hkind,
    parts_of_struct hkind, labelBytes_of_struct hkind]
  constructor
  · rintro ⟨block, _, ⟨entries, hentries, hlayouts, hshallow, ⟨hmembers, hsize⟩, rfl, hwithin'⟩,
      rfl, rfl⟩
    refine ⟨⟨entries, block.size, hentries, hlayouts, ?_, ?_⟩, hshallow, rfl, hwithin'⟩
    · simpa using hsize
    · simp [hmembers]
  · rintro ⟨⟨entries, size, hentries, hlayouts, hsize, rfl⟩, hshallow, rfl, hwithin'⟩
    refine ⟨⟨size, entries.toArray⟩, _,
      ⟨entries, hentries, hlayouts, hshallow, ⟨?_, ?_⟩, rfl, hwithin'⟩, rfl, rfl⟩
    · simp
    · simpa using hsize

theorem completes_pointer {storage : StorageClass} {pointee : Ident}
    (hkind : m.kind? id = some (.pointer storage pointee)) :
    Completes m levels id (throw (.pointerType id)) := by
  intro layout budget budget' _
  constructor
  · intro h
    exact absurd h Query.run_throw_ne_ok
  · rintro ⟨hlayout, -⟩
    exact absurd hlayout (not_hasLayout_pointer hkind)

end Cases

/-- Resolving finds the layout of a type exactly if its tree ends above the depth and fits the
budget. -/
theorem resolves_resolve (m : ShaderModule) (levels : Nat) :
    Resolves m levels (resolve m levels) := by
  induction levels with
  | zero =>
      intro id layout budget budget' _
      constructor
      · intro h
        exact absurd h Query.run_throw_ne_ok
      · rintro ⟨-, hshallow, -⟩
        cases hshallow
  | succ levels ih =>
      intro id
      rcases kind_cases (m := m) id with ⟨leaf, hleaf⟩ | ⟨repetition, hrepetition⟩ |
        ⟨base, hkind⟩ | ⟨members, hkind⟩ | ⟨storage, pointee, hkind⟩
      · rw [resolve_of_leaf hleaf]
        exact (completes_leaf hleaf).finds
      · rw [resolve_of_repetition hrepetition]
        exact (completes_repetition ih hrepetition).finds
      · rw [resolve_of_sampledImage hkind]
        exact (completes_sampledImage ih hkind).finds
      · rw [resolve_of_struct hkind]
        exact (completes_struct ih hkind).finds
      · rw [resolve_of_pointer hkind]
        exact (completes_pointer hkind).finds

end Layout

namespace ShaderModule

variable {m : ShaderModule} {levels : Nat} {id : Ident}

/-- Whether the tree of a type ends above a depth, has few enough nodes and short enough names. -/
structure WithinLimits (m : ShaderModule) (levels : Nat) (id : Ident) : Prop where
  shallow : m.level levels id = []
  few : (m.nodes levels id).length ≤ maxTypeNodes
  shortNames : ((m.nodes levels id).map m.labelBytes).sum ≤ maxNameBytes

theorem sum_labelBytes_le {nodes nodes' : List Ident} (hsublist : nodes.Sublist nodes') :
    (nodes.map m.labelBytes).sum ≤ (nodes'.map m.labelBytes).sum :=
  (hsublist.map m.labelBytes).sum_le_sum fun _ _ => Nat.zero_le _

theorem WithinLimits.of_part {part : Ident} (h : m.WithinLimits (levels + 1) id)
    (hpart : part ∈ m.parts id) : m.WithinLimits levels part where
  shallow := level_succ_eq_nil_iff.mp h.shallow part hpart
  few := Nat.le_trans (nodes_sublist_of_part hpart).length_le h.few
  shortNames := Nat.le_trans (sum_labelBytes_le (nodes_sublist_of_part hpart)) h.shortNames

theorem WithinLimits.succ (h : m.WithinLimits levels id) : m.WithinLimits (levels + 1) id where
  shallow := level_eq_nil_of_le (Nat.le_succ levels) h.shallow
  few := by
    rw [nodes_succ_of_level_eq_nil h.shallow]
    exact h.few
  shortNames := by
    rw [nodes_succ_of_level_eq_nil h.shallow]
    exact h.shortNames

/-- A fresh query gives the layout of a type exactly if the tree of the type is within the
limits. -/
theorem resolve_run'_eq_ok_iff {layout : Layout} :
    (Layout.resolve m levels id : Layout.Query Layout).run' {} = .ok layout ↔
      m.HasLayout id layout ∧ m.WithinLimits levels id := by
  have hfresh : Budget.Within {} := ⟨Nat.zero_le _, Nat.zero_le _⟩
  have hwithin : (Budget.charge {} m (m.nodes levels id)).Within ↔
      (m.nodes levels id).length ≤ maxTypeNodes ∧
      ((m.nodes levels id).map m.labelBytes).sum ≤ maxNameBytes := by
    simp only [Budget.Within, Budget.charge, Budget.spend, Nat.zero_add]
  have hrun : (Layout.resolve m levels id : Layout.Query Layout).run' {} = .ok layout ↔
      ∃ budget, (Layout.resolve m levels id : Layout.Query Layout).run {} =
        .ok (layout, budget) := by
    change Except.map Prod.fst ((Layout.resolve m levels id : Layout.Query Layout).run {}) = _ ↔ _
    cases (Layout.resolve m levels id : Layout.Query Layout).run {} with
    | error error => simp [Except.map]
    | ok outcome => simp [Except.map, Prod.ext_iff]
  rw [hrun]
  constructor
  · rintro ⟨budget, h⟩
    obtain ⟨hlayout, hshallow, rfl, hcharged⟩ := (Layout.resolves_resolve m levels id hfresh).mp h
    obtain ⟨hfew, hshort⟩ := hwithin.mp hcharged
    exact ⟨hlayout, hshallow, hfew, hshort⟩
  · rintro ⟨hlayout, hshallow, hfew, hshort⟩
    exact ⟨_, (Layout.resolves_resolve m levels id hfresh).mpr
      ⟨hlayout, hshallow, rfl, hwithin.mpr ⟨hfew, hshort⟩⟩⟩

theorem typeLayout_eq_ok_iff {layout : Layout} :
    m.typeLayout id = .ok layout ↔
      m.HasLayout id layout ∧ m.WithinLimits (maxLayoutDepth + 1) id :=
  resolve_run'_eq_ok_iff

theorem variableLayout_eq_ok_iff {layout : Layout} :
    m.variableLayout id = .ok layout ↔
      ∃ pointee, m.pointee id = .ok pointee ∧
        m.HasLayout pointee layout ∧ m.WithinLimits maxLayoutDepth pointee := by
  rw [variableLayout, bind_eq_ok_iff]
  simp only [resolve_run'_eq_ok_iff]

end ShaderModule

end ShaderReflection
