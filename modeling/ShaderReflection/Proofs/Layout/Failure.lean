import ShaderReflection.Proofs.Layout.Composition
import ShaderReflection.Proofs.Layout.Success

/-!
What the errors of layouts say. The first node, in the order of the work, that cannot be laid out
decides the error, and whatever the error names is found in the tree of the type that was asked for.
-/

namespace ShaderReflection

namespace ShaderModule

variable (m : ShaderModule)

/-- Whether the size of a type made of laid out parts needs more than a word: the product of a
vector, array or matrix, or the sum of the first members of a struct. -/
inductive Overflows (id : Ident) : Prop
  | repeated {repetition size} :
      m.repetition? id = some repetition → m.HasSize repetition.base size →
        UInt32.size ≤ size * repetition.count.toNat → Overflows id
  | struct {members} (count : Nat) (sizeOf : Ident → Nat) :
      m.kind? id = some (.struct members) →
        (∀ part ∈ members.take count, m.HasSize part (sizeOf part)) →
        UInt32.size ≤ ((members.take count).map sizeOf).sum → Overflows id

/-- Whether an error names a node of the tree of a type to which it applies. The tree may be
followed fewer than `levels` levels down. -/
def Blames (levels : Nat) (root : Ident) : LayoutError → Prop
  | .unresolvedReference id owner =>
      m.InTree root owner ∧
        ∃ members, m.kind? owner = some (.struct members) ∧ id ∈ members ∧ m.kind? id = none
  | .pointerType id =>
      m.InTree root id ∧ ∃ storage pointee, m.kind? id = some (.pointer storage pointee)
  | .sizeOverflow id => m.InTree root id ∧ m.Overflows id
  | .tooDeep id => id ∈ m.level levels root
  | .tooComplex id => m.InTree root id
  | .unknownVariable _ | .notAPointer .. => False

/-- Whether an error is true of the tree of a type: it names a node to which it applies, and the
tree passes a limit on nodes or names if the error says so. -/
structure Explained (levels : Nat) (root : Ident) (error : LayoutError) : Prop where
  blames : m.Blames levels root error
  large : ∀ id, error = .tooComplex id →
    maxTypeNodes < (m.nodes levels root).length ∨
      maxNameBytes < ((m.nodes levels root).map m.labelBytes).sum

/-- Whether a variable points to no type, for the reason that an error gives. -/
def PointsNowhere (id : Ident) : LayoutError → Prop
  | .unknownVariable wanted => wanted = id ∧ m.variableAt? id = none
  | .unresolvedReference missing owner =>
      ∃ declared, m.variableAt? id = some declared ∧ m.kind? missing = none ∧
        (owner = id ∧ missing = declared.type ∨
          owner = declared.type ∧ ∃ storage, m.kind? owner = some (.pointer storage missing))
  | .notAPointer owner type =>
      owner = id ∧ ∃ declared kind, m.variableAt? id = some declared ∧ type = declared.type ∧
        m.kind? type = some kind ∧ ∀ storage pointee, kind ≠ .pointer storage pointee
  | _ => False

variable {m} {levels : Nat} {id part : Ident} {error : LayoutError}

/-- What an error says of the tree of a part it says of the whole tree. -/
theorem Blames.of_part (hpart : part ∈ m.parts id) (h : m.Blames levels part error) :
    m.Blames (levels + 1) id error := by
  cases error with
  | unresolvedReference missing owner => exact ⟨h.1.of_part hpart, h.2⟩
  | pointerType | sizeOverflow => exact ⟨h.1.of_part hpart, h.2⟩
  | tooDeep node => exact mem_level_succ.mpr ⟨part, hpart, h⟩
  | tooComplex node => exact InTree.of_part hpart h
  | unknownVariable | notAPointer => exact h

end ShaderModule

namespace Layout

open ShaderModule

section Queries

variable {α β : Type} {budget : Budget} {error : LayoutError}

theorem Query.run_bind_eq_error_iff {first : Query α} {next : α → Query β} :
    (first >>= next).run budget = .error error ↔
      first.run budget = .error error ∨
        ∃ value between, first.run budget = .ok (value, between) ∧
          (next value).run between = .error error := by
  rw [StateT.run_bind, bind_eq_error_iff, Prod.exists]

theorem Query.run_lift_eq_error_iff {outcome : Except LayoutError α} :
    (liftM outcome : Query α).run budget = .error error ↔ outcome = .error error := by
  cases outcome with
  | error other =>
      constructor
      · intro h
        cases h
        rfl
      · rintro ⟨⟩
        rfl
  | ok value => exact iff_of_false nofun nofun

theorem Query.run_foldlM {step : β → α → Query β} (items : List α) (state : β)
    (budget : Budget) :
    (items.foldlM step state).run budget =
      items.foldlM (fun reached item => (step reached.1 item).run reached.2) (state, budget) := by
  induction items generalizing state budget with
  | nil => rfl
  | cons item rest ih =>
      rw [List.foldlM_cons, List.foldlM_cons, StateT.run_bind]
      simp only [ih]

theorem Query.run_foldlM_eq_error_iff {step : β → α → Query β} {items : List α} {state : β} :
    (items.foldlM step state).run budget = .error error ↔
      ∃ before item after between spent, items = before ++ item :: after ∧
        (before.foldlM step state).run budget = .ok (between, spent) ∧
        (step between item).run spent = .error error := by
  rw [Query.run_foldlM, foldlM_eq_error_iff]
  simp only [Query.run_foldlM, Prod.exists]

theorem check_eq_error_iff (refused : Bool) {other : LayoutError} {spent : Budget}
    (hrefused : ¬ refused ↔ spent.Within) :
    (if refused then Except.error other else .ok ((), spent)) = .error error ↔
      error = other ∧ ¬ spent.Within := by
  by_cases hwithin : spent.Within
  · rw [if_neg (hrefused.mpr hwithin)]
    exact iff_of_false (by simp) (fun h => h.2 hwithin)
  · rw [if_pos (Decidable.not_not.mp (mt hrefused.mp hwithin))]
    simp [hwithin, eq_comm]

theorem visit_eq_error_iff {id : Ident} (hwithin : budget.Within) :
    (visit id : Query Unit).run budget = .error error ↔
      error = .tooComplex id ∧ ¬ (budget.spend 1 0).Within := by
  exact check_eq_error_iff (budget.spend 1 0).overNodes hwithin.not_overNodes_iff

theorem copyName_eq_error_iff {id : Ident} {name : String} (hwithin : budget.Within) :
    (copyName id name : Query Unit).run budget = .error error ↔
      error = .tooComplex id ∧ ¬ (budget.spend 0 name.utf8ByteSize).Within := by
  exact check_eq_error_iff (budget.spend 0 name.utf8ByteSize).overNames hwithin.not_overNames_iff

theorem repeated_eq_error_iff {id : Ident} {repetition : Repetition} {element : Layout} :
    repeated id repetition.shape repetition.name element (repetition.elementName element)
        repetition.count = .error error ↔
      error = .sizeOverflow id ∧
        UInt32.size ≤ element.size.toNat * repetition.count.toNat := by
  unfold repeated
  rw [← Word.mul?_eq_none_iff]
  cases Word.mul? element.size repetition.count <;> simp [eq_comm]

end Queries

/-- Whether every error of a query about a type blames a node of its tree, and comes from too large
a tree if it says so. -/
def Justifies (m : ShaderModule) (levels : Nat) (id : Ident) (query : Query Layout) : Prop :=
  ∀ ⦃budget error⦄, Budget.Within budget → query.run budget = .error error →
    m.Blames levels id error ∧
      ∀ node, error = .tooComplex node → ¬ (budget.charge m (m.nodes levels id)).Within

/-- The same of what is left of a query once the type has been visited. -/
def JustifiesRest (m : ShaderModule) (levels : Nat) (id : Ident) (query : Query Layout) : Prop :=
  ∀ ⦃budget error⦄, Budget.Within budget → query.run budget = .error error →
    m.Blames (levels + 1) id error ∧
      ∀ node, error = .tooComplex node →
        ¬ ((budget.charge m ((m.parts id).flatMap (m.nodes levels))).spend 0
          (m.labelBytes id)).Within

section Cases

variable {m : ShaderModule} {levels : Nat} {layoutOf : Ident → Query Layout} {id : Ident}

theorem JustifiesRest.justifies {query : Query Layout} (h : JustifiesRest m levels id query) :
    Justifies m (levels + 1) id (do
      visit id
      query) := by
  intro budget error hwithin hrun
  rw [Budget.charge_nodes_succ]
  rcases Query.run_bind_eq_error_iff.mp hrun with hvisit | ⟨_, between, hvisit, hquery⟩
  · obtain ⟨rfl, hover⟩ := (visit_eq_error_iff hwithin).mp hvisit
    exact ⟨.self m id, fun _ _ hall => hover hall.of_spend.of_charge⟩
  · obtain ⟨rfl, hvisited⟩ := (visit_eq_ok_iff hwithin).mp hvisit
    exact h hvisited hquery

theorem justifiesRest_pure (leaf : Layout) : JustifiesRest m levels id (pure leaf) := by
  intro budget error _ hrun
  cases hrun

theorem justifiesRest_pointer {storage : StorageClass} {pointee : Ident}
    (hkind : m.kind? id = some (.pointer storage pointee)) :
    JustifiesRest m levels id (throw (.pointerType id)) := by
  intro budget error _ hrun
  cases hrun
  exact ⟨⟨.self m id, storage, pointee, hkind⟩, nofun⟩

/-- What goes wrong below the only part of a type goes wrong below the type. -/
theorem Justifies.of_base {base : Ident} (hparts : m.parts id = [base])
    (h : Justifies m levels base (layoutOf base)) {budget : Budget} {error : LayoutError}
    (hwithin : budget.Within) (hrun : (layoutOf base).run budget = .error error) :
    m.Blames (levels + 1) id error ∧
      ∀ node, error = .tooComplex node →
        ¬ ((budget.charge m ((m.parts id).flatMap (m.nodes levels))).spend 0
          (m.labelBytes id)).Within := by
  obtain ⟨hblames, hlarge⟩ := h hwithin hrun
  refine ⟨hblames.of_part (hparts ▸ List.mem_singleton_self base), fun node hnode hall => ?_⟩
  rw [hparts, List.flatMap_singleton] at hall
  exact hlarge node hnode hall.of_spend

theorem justifiesRest_repetition (hresolves : Resolves m levels layoutOf)
    (hjustifies : ∀ part, Justifies m levels part (layoutOf part)) {repetition : Repetition}
    (hrepetition : m.repetition? id = some repetition) :
    JustifiesRest m levels id (do
      let element ← layoutOf repetition.base
      repeated id repetition.shape repetition.name element (repetition.elementName element)
        repetition.count) := by
  intro budget error hwithin hrun
  rcases Query.run_bind_eq_error_iff.mp hrun with hbase | ⟨element, between, hbase, hsize⟩
  · exact (hjustifies _).of_base (parts_of_repetition hrepetition) hwithin hbase
  · obtain ⟨hlayout, -⟩ := (hresolves _ hwithin).mp hbase
    obtain ⟨rfl, hover⟩ := repeated_eq_error_iff.mp (Query.run_lift_eq_error_iff.mp hsize)
    exact ⟨⟨.self m id, .repeated hrepetition hlayout.hasSize hover⟩, nofun⟩

theorem justifiesRest_sampledImage (hjustifies : ∀ part, Justifies m levels part (layoutOf part))
    {base : Ident} (hkind : m.kind? id = some (.sampledImage base)) :
    JustifiesRest m levels id (do
      let image ← layoutOf base
      return .sampled image) := by
  intro budget error hwithin hrun
  rcases Query.run_bind_eq_error_iff.mp hrun with hbase | ⟨image, between, hbase, hpure⟩
  · exact (hjustifies _).of_base (parts_of_sampledImage hkind) hwithin hbase
  · cases hpure

end Cases

section Members

variable {m : ShaderModule} {levels : Nat} {layoutOf : Ident → Query Layout} {id : Ident}

/-- Why a member cannot be added to a part of a struct: it is undefined, it has no layout, its name
is too long, or it is too large. -/
theorem Block.add_error (hresolves : Resolves m levels layoutOf)
    (hjustifies : ∀ part, Justifies m levels part (layoutOf part)) {block : Block}
    {member : Ident} {budget : Budget} {error : LayoutError} (hwithin : budget.Within)
    (hrun : (Block.add m layoutOf id block member).run budget = .error error) :
    (error = .unresolvedReference member id ∧ m.kind? member = none) ∨
      (m.Blames levels member error ∧ ∀ node, error = .tooComplex node →
        ¬ (budget.charge m (m.nodes levels member)).Within) ∨
      (error = .tooComplex id ∧ ¬ ((budget.charge m (m.nodes levels member)).spend 0
        (m.memberLabel id block.members.size).utf8ByteSize).Within) ∨
      error = .sizeOverflow id ∧ ∃ layout, m.HasLayout member layout ∧
        UInt32.size ≤ block.size.toNat + layout.size.toNat := by
  unfold Block.add at hrun
  cases hkind : m.kind? member with
  | none =>
      rw [hkind] at hrun
      cases hrun
      exact .inl ⟨rfl, rfl⟩
  | some kind =>
      rw [hkind] at hrun
      rcases Query.run_bind_eq_error_iff.mp hrun with hlayout | ⟨layout, between, hlayout, hrest⟩
      · exact .inr (.inl (hjustifies member hwithin hlayout))
      obtain ⟨hhas, -, rfl, hcharged⟩ := (hresolves member hwithin).mp hlayout
      rcases Query.run_bind_eq_error_iff.mp hrest with hcopy | ⟨_, between, hcopy, hsum⟩
      · exact .inr (.inr (.inl ((copyName_eq_error_iff hcharged).mp hcopy)))
      · cases hsize : Word.add? block.size layout.size with
        | some size =>
            rw [hsize] at hsum
            cases hsum
        | none =>
            rw [hsize] at hsum
            cases hsum
            exact .inr (.inr (.inr ⟨rfl, layout, hhas, Word.add?_eq_none_iff.mp hsize⟩))

/-- A struct overflows where the sizes of its first members and of the next one add up to more than
a word. -/
theorem overflows_of_first {before after : List Ident} {member : Ident}
    {entries : List (Member Layout)} {layout : Layout}
    (hkind : m.kind? id = some (.struct (before ++ member :: after)))
    (hentries : m.Entries id 0 before entries)
    (hlayouts : ∀ entry ∈ entries, m.HasLayout entry.typeId entry.layout)
    (hlayout : m.HasLayout member layout)
    (hover : UInt32.size ≤ (entries.map (·.layout.size.toNat)).sum + layout.size.toNat) :
    m.Overflows id := by
  choose! sizeOf hsizes using fun part (hpart : ∃ size, m.HasSize part size) => hpart
  have hbefore : ∀ entry ∈ entries, m.HasSize entry.typeId (sizeOf entry.typeId) :=
    fun entry hentry => hsizes _ ⟨_, (hlayouts entry hentry).hasSize⟩
  have hmember : m.HasSize member (sizeOf member) := hsizes member ⟨_, hlayout.hasSize⟩
  have htaken : (before ++ member :: after).take (before.length + 1) = before ++ [member] := by
    rw [List.take_length_add_append]
    rfl
  refine .struct (before.length + 1) sizeOf hkind ?_ ?_
  · rw [htaken, List.forall_mem_append, List.forall_mem_singleton, ← hentries.types]
    exact ⟨List.forall_mem_map.mpr hbefore, hmember⟩
  · rw [htaken, List.map_append, List.sum_append, List.map_singleton, List.sum_singleton,
      ← hentries.types, ← sum_sizes_of_entries hlayouts hbefore,
      ← hmember.eq_of_hasLayout hlayout]
    exact hover

/-- If all members of a struct can be afforded, so can those up to the name of one of them. -/
theorem within_up_to {before after : List Ident} {member : Ident} {budget : Budget}
    (hkind : m.kind? id = some (.struct (before ++ member :: after)))
    (hall : ((budget.charge m ((m.parts id).flatMap (m.nodes levels))).spend 0
      (m.labelBytes id)).Within) :
    (((budget.chargeMembers m levels id 0 before).charge m (m.nodes levels member)).spend 0
      (m.memberLabel id before.length).utf8ByteSize).Within := by
  have hcost : (budget.charge m ((m.parts id).flatMap (m.nodes levels))).spend 0
      (m.labelBytes id) = budget.chargeMembers m levels id 0 (before ++ member :: after) := by
    rw [parts_of_struct hkind, labelBytes_of_struct hkind]
    rfl
  rw [hcost, Budget.chargeMembers_append, Budget.chargeMembers_cons, Nat.zero_add] at hall
  exact hall.of_spend.of_charge

theorem justifiesRest_struct (hresolves : Resolves m levels layoutOf)
    (hjustifies : ∀ part, Justifies m levels part (layoutOf part)) {members : List Ident}
    (hkind : m.kind? id = some (.struct members)) :
    JustifiesRest m levels id (do
      let block ← members.foldlM (Block.add m layoutOf id) {}
      return .struct block.size block.members.toList) := by
  intro budget error hwithin hrun
  rcases Query.run_bind_eq_error_iff.mp hrun with hfold | ⟨block, between, -, hpure⟩
  · -- The error is that of one member, and those before it have layouts.
    obtain ⟨before, member, after, block, spent, rfl, hbefore, hadd⟩ :=
      Query.run_foldlM_eq_error_iff.mp hfold
    obtain ⟨entries, hentries, hlayouts, -, ⟨hmembers, hsize⟩, rfl, hspent⟩ :=
      (Block.foldlM_add_eq_ok_iff hresolves hwithin).mp hbefore
    have hpart : member ∈ m.parts id := by
      rw [parts_of_struct hkind]
      exact List.mem_append_right _ (List.mem_cons_self ..)
    have hplace : block.members.size = before.length := by
      simp [hmembers, ← hentries.types]
    rcases Block.add_error hresolves hjustifies hspent hadd with ⟨rfl, hundefined⟩ |
      ⟨hblames, hlarge⟩ | ⟨rfl, hover⟩ | ⟨rfl, layout, hlayout, hover⟩
    · exact ⟨⟨.self m id, _, hkind, parts_of_struct hkind ▸ hpart, hundefined⟩, nofun⟩
    · exact ⟨hblames.of_part hpart,
        fun node hnode hall => hlarge node hnode (within_up_to hkind hall).of_spend⟩
    · rw [hplace] at hover
      exact ⟨.self m id, fun _ _ hall => hover (within_up_to hkind hall)⟩
    · rw [hsize] at hover
      have hsum := overflows_of_first hkind hentries hlayouts hlayout (by simpa using hover)
      exact ⟨⟨.self m id, hsum⟩, nofun⟩
  · cases hpure

end Members

/-- Every error of a layout blames a node of the tree, and a tree is called too complex only if it
passes a limit. -/
theorem justifies_resolve (m : ShaderModule) (levels : Nat) (id : Ident) :
    Justifies m levels id (resolve m levels id) := by
  induction levels generalizing id with
  | zero =>
      intro budget error _ hrun
      cases hrun
      exact ⟨List.mem_singleton_self id, nofun⟩
  | succ levels ih =>
      have hresolves := resolves_resolve m levels
      rcases kind_cases (m := m) id with ⟨leaf, hleaf⟩ | ⟨repetition, hrepetition⟩ |
        ⟨base, hkind⟩ | ⟨members, hkind⟩ | ⟨storage, pointee, hkind⟩
      · rw [resolve_of_leaf hleaf]
        exact (justifiesRest_pure leaf).justifies
      · rw [resolve_of_repetition hrepetition]
        exact (justifiesRest_repetition hresolves ih hrepetition).justifies
      · rw [resolve_of_sampledImage hkind]
        exact (justifiesRest_sampledImage ih hkind).justifies
      · rw [resolve_of_struct hkind]
        exact (justifiesRest_struct hresolves ih hkind).justifies
      · rw [resolve_of_pointer hkind]
        exact (justifiesRest_pointer hkind).justifies

end Layout

namespace ShaderModule

variable {m : ShaderModule} {levels : Nat} {id : Ident} {error : LayoutError}

/-- The errors of a fresh query are true of the tree. -/
theorem explained_of_resolve
    (h : (Layout.resolve m levels id : Layout.Query Layout).run' {} = .error error) :
    m.Explained levels id error := by
  have hfresh : Budget.Within {} := ⟨Nat.zero_le _, Nat.zero_le _⟩
  have hrun : (Layout.resolve m levels id : Layout.Query Layout).run {} = .error error :=
    map_eq_error_iff.mp h
  obtain ⟨hblames, hlarge⟩ := Layout.justifies_resolve m levels id hfresh hrun
  refine ⟨hblames, fun node hnode => ?_⟩
  have hover := hlarge node hnode
  simp only [Budget.Within, Budget.charge, Budget.spend, Nat.zero_add] at hover
  omega

theorem pointee_eq_error_iff : m.pointee id = .error error ↔ m.PointsNowhere id error := by
  unfold ShaderModule.pointee
  constructor
  · intro h
    split at h
    · next hnone =>
        cases h
        exact ⟨rfl, hnone⟩
    · next declared hdeclared =>
        split at h
        · next hundefined =>
            cases h
            exact ⟨declared, hdeclared, hundefined, .inl ⟨rfl, rfl⟩⟩
        · next storage pointee hpointer =>
            split at h
            · next hundefined =>
                cases h
                exact ⟨declared, hdeclared, Option.isNone_iff_eq_none.mp hundefined,
                  .inr ⟨rfl, storage, hpointer⟩⟩
            · cases h
        · next kind hother hkind =>
            cases h
            exact ⟨rfl, declared, kind, hdeclared, rfl, hkind, hother⟩
  · intro h
    cases error with
    | unknownVariable wanted =>
        obtain ⟨rfl, hnone⟩ := h
        simp only [hnone]
    | unresolvedReference missing owner =>
        obtain ⟨declared, hdeclared, hundefined, ⟨rfl, rfl⟩ | ⟨rfl, storage, hpointer⟩⟩ := h
        · simp only [hdeclared, hundefined]
        · simp only [hdeclared, hpointer, hundefined, Option.isNone_none, if_true]
    | notAPointer owner type =>
        obtain ⟨rfl, declared, kind, hdeclared, rfl, hkind, hother⟩ := h
        simp only [hdeclared, hkind]
    | pointerType | sizeOverflow | tooDeep | tooComplex => exact h.elim

/-- A layout of what a variable points to fails because it points to no type, or because the type
has no layout there. -/
theorem variableLayout_eq_error_iff :
    m.variableLayout id = .error error ↔
      m.PointsNowhere id error ∨ ∃ declared storage pointee, m.variableAt? id = some declared ∧
        m.kind? declared.type = some (.pointer storage pointee) ∧ m.kind? pointee ≠ none ∧
        (Layout.resolve m maxLayoutDepth pointee : Layout.Query Layout).run' {} =
          .error error := by
  unfold variableLayout
  rw [bind_eq_error_iff, pointee_eq_error_iff]
  apply or_congr_right
  constructor
  · rintro ⟨pointee, hpointee, h⟩
    obtain ⟨declared, storage, hdeclared, hkind, hdefined⟩ := pointee_eq_ok_iff.mp hpointee
    exact ⟨declared, storage, pointee, hdeclared, hkind, hdefined, h⟩
  · rintro ⟨declared, storage, pointee, hdeclared, hkind, hdefined, h⟩
    exact ⟨pointee, pointee_eq_ok_iff.mpr ⟨declared, storage, hdeclared, hkind, hdefined⟩, h⟩

/-- The errors of layouts are true. What the error of a type names is a node of its tree to which
the error applies. That of a variable concerns what it points to, one level further down, unless it
points to no type, and then the error says why. -/
theorem layout_errors_truthful (m : ShaderModule) :
    (∀ id error, m.typeLayout id = .error error → m.Explained (maxLayoutDepth + 1) id error) ∧
      ∀ id error,
        (m.PointsNowhere id error → m.variableLayout id = .error error) ∧
        (m.variableLayout id = .error error → m.PointsNowhere id error ∨
          ∃ declared storage pointee, m.variableAt? id = some declared ∧
            m.kind? declared.type = some (.pointer storage pointee) ∧ m.kind? pointee ≠ none ∧
            m.Explained maxLayoutDepth pointee error) := by
  refine ⟨fun id error h => explained_of_resolve h, fun id error => ⟨fun h => ?_, fun h => ?_⟩⟩
  · exact variableLayout_eq_error_iff.mpr (.inl h)
  · rcases variableLayout_eq_error_iff.mp h with h | ⟨declared, storage, pointee, hdeclared, hkind,
      hdefined, h⟩
    · exact .inl h
    · exact .inr ⟨declared, storage, pointee, hdeclared, hkind, hdefined, explained_of_resolve h⟩

theorem layout_errors_truthful_broken_blocks :
    let m := ofDeclarations ⟨magicNumber, 0x10000, 0, 14, 0⟩
      [.type (.ofKind 1 (.float 32)), .constant ⟨2, 1, [0x38000000]⟩,
        .type (.ofKind 3 (.array 1 2)), .type (.ofKind 4 (.pointer .uniform 1)),
        .type (.ofKind 5 (.struct [1, 3, 3])), .type (.ofKind 6 (.struct [1, 4, 5])),
        .type (.ofKind 7 (.struct [1, 7])), .type (.ofKind 8 (.struct [1, 13])),
        .type (.ofKind 9 (.pointer .uniform 8)), .moduleVariable ⟨10, 9, .uniform⟩,
        .moduleVariable ⟨11, 8, .uniform⟩]
    m.Overflows 5 ∧
      (m.InTree 6 4 ∧ ∃ storage pointee, m.kind? 4 = some (.pointer storage pointee)) ∧
      1 ∈ m.level 65 7 ∧ m.Explained 64 8 (.unresolvedReference 13 8) ∧
      m.variableLayout 11 = .error (.notAPointer 11 8) := by
  intro m
  have hoverflow : (m.typeLayout 5).map (fun _ => ()) = .error (.sizeOverflow 5) := by
    decide +kernel
  have hpointer : (m.typeLayout 6).map (fun _ => ()) = .error (.pointerType 4) := by
    decide +kernel
  have hdeep : (m.typeLayout 7).map (fun _ => ()) = .error (.tooDeep 1) := by decide +kernel
  have hundefined :
      (m.variableLayout 10).map (fun _ => ()) = .error (.unresolvedReference 13 8) := by
    decide +kernel
  have hpointee : m.variableAt? 10 = some ⟨10, 9, .uniform⟩ := by decide +kernel
  have hpointed : m.kind? 9 = some (.pointer .uniform 8) := by decide +kernel
  have hplain : m.variableAt? 11 = some ⟨11, 8, .uniform⟩ := by decide +kernel
  have hstruct : m.kind? 8 = some (.struct [1, 13]) := by decide +kernel
  obtain ⟨htypes, hvariables⟩ := layout_errors_truthful m
  refine ⟨(htypes 5 _ (map_eq_error_iff.mp hoverflow)).blames.2,
    (htypes 6 _ (map_eq_error_iff.mp hpointer)).blames,
    (htypes 7 _ (map_eq_error_iff.mp hdeep)).blames, ?_,
    (hvariables 11 _).1 ⟨rfl, _, _, hplain, rfl, hstruct, nofun⟩⟩
  rcases (hvariables 10 _).2 (map_eq_error_iff.mp hundefined) with
    ⟨declared, hdeclared, -, howner⟩ | ⟨declared, storage, pointee, hdeclared, hkind, -, h⟩
  · obtain rfl := Option.some.inj (hpointee.symm.trans hdeclared)
    rcases howner with ⟨howner, -⟩ | ⟨howner, -⟩ <;> exact absurd howner (by decide)
  · obtain rfl := Option.some.inj (hpointee.symm.trans hdeclared)
    cases hpointed.symm.trans hkind
    exact h

end ShaderModule

end ShaderReflection
