import ShaderReflection.Proofs.Faulting.Reading
import ShaderReflection.Proofs.Layout.Resolution

/-!
Counting in 32 bits. What layouts and renderings use up may be kept in counters of a fixed size.
Every count starts within the limits and is checked when it is raised, and no name is long enough to
take it from there past the end of the counter, so the layouts are the same.
-/

namespace ShaderReflection

/-- More bytes than a text that an instruction carries can have: there are at most 65534 operands,
four bytes in each, and no byte reads as more than one character, of at most four bytes. -/
def longestText : Nat := 4 * (4 * 65534)

/-- Whether no struct member has a longer name than an instruction can carry. -/
def ShaderModule.ShortNames (m : ShaderModule) : Prop :=
  ∀ id member name, m.memberName? id member = some name → name.utf8ByteSize ≤ longestText

namespace Faulting

variable {α β : Type}

/-- A sum in 32 bits, which must hold it. -/
def sum {ε : Type} (a b : Nat) : Faulting ε Nat :=
  if a + b < UInt32.size then pure (a + b) else fault

instance {ε : Type} : Charging (Faulting ε) where
  visit budget := return { budget with visited := ← sum budget.visited 1 }
  copyName budget name :=
    return { budget with nameBytes := ← sum budget.nameBytes name.utf8ByteSize }

/-- A computation within the budget of one question. -/
abbrev Query := StateT Budget (Faulting LayoutError)

/-- The layout of a type. -/
def typeLayout (m : ShaderModule) (id : Ident) : Faulting LayoutError Layout :=
  (Layout.resolve m (maxLayoutDepth + 1) id : Query Layout).run' {}

/-- The layout of what a variable points to. -/
def variableLayout (m : ShaderModule) (id : Ident) : Faulting LayoutError Layout := do
  (Layout.resolve m maxLayoutDepth (← total (m.pointee id)) : Query Layout).run' {}

/-- Whether counting in 32 bits makes no difference to a query from a budget within the limits. -/
def Follows (counted : Query α) (query : Layout.Query α) : Prop :=
  ∀ budget : Budget, budget.Within → counted.run budget = total (query.run budget) ∧
    ∀ value after, query.run budget = .ok (value, after) → after.Within

section Steps

variable {counted : Query α} {query : Layout.Query α}

theorem follows_pure (value : α) : Follows (pure value) (pure value) := by
  intro budget hwithin
  refine ⟨rfl, ?_⟩
  intro _ after h
  obtain ⟨-, rfl⟩ := Layout.Query.run_pure_eq_ok_iff.mp h
  exact hwithin

theorem follows_throw (error : LayoutError) :
    Follows (throw error : Query α) (throw error : Layout.Query α) := by
  intro budget _
  refine ⟨rfl, ?_⟩
  intro _ _ h
  exact absurd h Layout.Query.run_throw_ne_ok

theorem follows_lift (outcome : Except LayoutError α) :
    Follows (liftM outcome) (liftM outcome) := by
  intro budget hwithin
  constructor
  · cases outcome <;> rfl
  · intro _ after h
    obtain ⟨-, rfl⟩ := Layout.Query.run_lift_eq_ok_iff.mp h
    exact hwithin

theorem Follows.bind {next : α → Query β} {next' : α → Layout.Query β}
    (h : Follows counted query) (hnext : ∀ value, Follows (next value) (next' value)) :
    Follows (counted >>= next) (query >>= next') := by
  intro budget hwithin
  obtain ⟨hsame, hafter⟩ := h budget hwithin
  constructor
  · rw [StateT.run_bind, StateT.run_bind, hsame]
    refine bind_total fun outcome houtcome => ?_
    exact (hnext outcome.1 outcome.2 (hafter outcome.1 outcome.2 houtcome)).1
  · intro value after hrun
    obtain ⟨first, between, hfirst, hrest⟩ := Layout.Query.run_bind_eq_ok_iff.mp hrun
    exact (hnext first between (hafter first between hfirst)).2 value after hrest

theorem follows_foldlM {σ : Type} {step : σ → α → Query σ} {step' : σ → α → Layout.Query σ}
    (hstep : ∀ state item, Follows (step state item) (step' state item)) (items : List α)
    (state : σ) : Follows (items.foldlM step state) (items.foldlM step' state) := by
  induction items generalizing state with
  | nil => exact follows_pure state
  | cons item rest ih =>
      rw [List.foldlM_cons, List.foldlM_cons]
      exact (hstep state item).bind ih

theorem sum_eq {ε : Type} {a b : Nat} (hfits : a + b < 4294967296) :
    sum a b = (pure (a + b) : Faulting ε Nat) :=
  if_pos hfits

theorem charging_visit_eq {ε : Type} {budget : Budget} (hwithin : budget.Within) :
    Charging.visit budget = (pure budget.visit : Faulting ε Budget) := by
  have hfits : budget.visited + 1 < 4294967296 := by
    have hvisited := hwithin.1
    simp only [maxTypeNodes] at hvisited
    omega
  change (sum budget.visited 1 >>= fun _ => _) = _
  rw [sum_eq hfits]
  rfl

theorem charging_copyName_eq {ε : Type} {budget : Budget} {name : String}
    (hfits : budget.nameBytes + name.utf8ByteSize < 4294967296) :
    Charging.copyName budget name = (pure (budget.copyName name) : Faulting ε Budget) := by
  change (sum budget.nameBytes name.utf8ByteSize >>= fun _ => _) = _
  rw [sum_eq hfits]
  rfl

theorem follows_visit (id : Ident) : Follows (Layout.visit id) (Layout.visit id) := by
  intro budget hwithin
  constructor
  · change (Charging.visit budget >>= fun _ => _) = _
    rw [charging_visit_eq hwithin]
    change (if budget.visit.overNodes then _ else _) =
      total (if budget.visit.overNodes then _ else _)
    split_ifs <;> rfl
  · intro value after h
    exact ((Layout.visit_eq_ok_iff hwithin).mp h).2

theorem follows_copyName (id : Ident) {name : String} (hname : name.utf8ByteSize ≤ longestText) :
    Follows (Layout.copyName id name) (Layout.copyName id name) := by
  intro budget hwithin
  constructor
  · have hfits : budget.nameBytes + name.utf8ByteSize < 4294967296 := by
      have hbytes := hwithin.2
      simp only [maxNameBytes, longestText] at hbytes hname
      omega
    change (Charging.copyName budget name >>= fun _ => _) = _
    rw [charging_copyName_eq hfits]
    change (if (budget.copyName name).overNames then _ else _) =
      total (if (budget.copyName name).overNames then _ else _)
    split_ifs <;> rfl
  · intro value after h
    exact ((Layout.copyName_eq_ok_iff hwithin).mp h).2

end Steps

section Layouts

variable {m : ShaderModule}

theorem follows_add (hnames : m.ShortNames) {layoutOf : Ident → Query Layout}
    {layoutOf' : Ident → Layout.Query Layout}
    (hlayouts : ∀ id, Follows (layoutOf id) (layoutOf' id)) (id : Ident) (block : Layout.Block)
    (member : Ident) :
    Follows (Layout.Block.add m layoutOf id block member)
      (Layout.Block.add m layoutOf' id block member) := by
  unfold Layout.Block.add
  cases m.kind? member with
  | none => exact follows_throw _
  | some kind =>
      refine (hlayouts member).bind fun layout => ?_
      refine (follows_copyName id ?_).bind fun _ => ?_
      · cases hname : m.memberName? id block.members.size.toUInt32 with
        | none => exact Nat.zero_le _
        | some name => exact hnames _ _ _ hname
      · cases Word.add? block.size layout.size with
        | none => exact follows_throw _
        | some size => exact follows_pure _

theorem follows_ofKind (hnames : m.ShortNames) {layoutOf : Ident → Query Layout}
    {layoutOf' : Ident → Layout.Query Layout}
    (hlayouts : ∀ id, Follows (layoutOf id) (layoutOf' id)) (id : Ident) (kind : TypeKind) :
    Follows (Layout.ofKind m layoutOf id kind) (Layout.ofKind m layoutOf' id kind) := by
  cases kind with
  | void | bool | int | float | image | sampler => exact follows_pure _
  | vector component | array component | matrix component =>
      exact (hlayouts component).bind fun _ => follows_lift _
  | sampledImage base => exact (hlayouts base).bind fun _ => follows_pure _
  | pointer => exact follows_throw _
  | struct members =>
      exact (follows_foldlM (follows_add hnames hlayouts id) members {}).bind
        fun _ => follows_pure _

theorem follows_resolve (hnames : m.ShortNames) (levels : Nat) (id : Ident) :
    Follows (Layout.resolve m levels id) (Layout.resolve m levels id) := by
  induction levels generalizing id with
  | zero => exact follows_throw _
  | succ levels ih =>
      rw [Layout.resolve_succ, Layout.resolve_succ]
      refine (follows_visit id).bind fun _ => ?_
      cases m.kind? id with
      | none => exact follows_pure _
      | some kind => exact follows_ofKind hnames ih id kind

theorem run'_eq (hnames : m.ShortNames) (levels : Nat) (id : Ident) :
    (Layout.resolve m levels id : Query Layout).run' {} =
      total ((Layout.resolve m levels id : Layout.Query Layout).run' {}) := by
  have hfresh : Budget.Within {} := ⟨Nat.zero_le _, Nat.zero_le _⟩
  obtain ⟨hsame, -⟩ := follows_resolve hnames levels id {} hfresh
  change Prod.fst <$> (Layout.resolve m levels id : Query Layout).run {} = _
  rw [hsame]
  change _ = total (Prod.fst <$> (Layout.resolve m levels id : Layout.Query Layout).run {})
  cases (Layout.resolve m levels id : Layout.Query Layout).run {} <;> rfl

theorem typeLayout_eq (hnames : m.ShortNames) (id : Ident) :
    typeLayout m id = total (m.typeLayout id) :=
  run'_eq hnames _ id

theorem variableLayout_eq (hnames : m.ShortNames) (id : Ident) :
    variableLayout m id = total (m.variableLayout id) :=
  bind_total fun pointee _ => run'_eq hnames _ pointee

end Layouts

end Faulting

end ShaderReflection
