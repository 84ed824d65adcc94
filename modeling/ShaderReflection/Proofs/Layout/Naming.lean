import ShaderReflection.Proofs.Layout.Failure

/-!
Names and layouts. The names of members are copied into a layout and counted, but nothing else is
made from them. Two modules with the same types and constants are resolved in lock step, apart from
the bytes of names that each of them has used up, and these can only end a run.
-/

namespace ShaderReflection

namespace Layout

mutual

/-- A layout with all member names taken out. -/
def unnamed : Layout → Layout
  | ⟨shape, name, size, baseSize, baseType, baseCount, members, image⟩ =>
    ⟨shape, name, size, baseSize, baseType, baseCount, unnamedMembers? members, image⟩

def unnamedMembers? : Option (List (Member Layout)) → Option (List (Member Layout))
  | none => none
  | some members => some (unnamedMembers members)

def unnamedMembers : List (Member Layout) → List (Member Layout)
  | [] => []
  | member :: rest => unnamedMember member :: unnamedMembers rest

/-- A member without its name and with a layout that has none. -/
def unnamedMember : Member Layout → Member Layout
  | ⟨_, typeId, kind, layout⟩ => ⟨"", typeId, kind, unnamed layout⟩

end

theorem unnamedMembers_eq (members : List (Member Layout)) :
    unnamedMembers members = members.map unnamedMember := by
  induction members with
  | nil => rfl
  | cons member rest ih => rw [unnamedMembers, List.map_cons, ih]

/-- Whether two layouts are the same except for the names of members. -/
def Alike (layout layout' : Layout) : Prop := layout.unnamed = layout'.unnamed

section Alike

variable {base base' : Layout}

theorem Alike.refl (layout : Layout) : layout.Alike layout := rfl

/-- What is made from the layout of a part does not have its members. -/
theorem Alike.fields (h : base.Alike base') :
    base.name = base'.name ∧ base.size = base'.size ∧ base.baseSize = base'.baseSize ∧
      base.image = base'.image := by
  cases base
  cases base'
  simp only [Alike, unnamed, mk.injEq] at h
  obtain ⟨-, hname, hsize, hbaseSize, -, -, -, himage⟩ := h
  exact ⟨hname, hsize, hbaseSize, himage⟩

theorem Alike.repeated_eq (h : base.Alike base') (id : Ident) (shape : Shape)
    (name baseType : String) (count : Word) :
    repeated id shape name base baseType count = repeated id shape name base' baseType count := by
  obtain ⟨-, hsize, -, -⟩ := h.fields
  rw [repeated, repeated, hsize]

theorem Alike.sampled_eq (h : base.Alike base') : sampled base = sampled base' := by
  obtain ⟨-, hsize, hbaseSize, himage⟩ := h.fields
  rw [sampled, sampled, hsize, hbaseSize, himage]

/-- Whether two blocks are the same except for the names of members, their own and those below. -/
structure Block.Alike (block block' : Block) : Prop where
  size_eq : block.size = block'.size
  members_eq : block.members.toList.map unnamedMember = block'.members.toList.map unnamedMember

theorem Block.Alike.struct {block block' : Block} (h : block.Alike block') :
    (Layout.struct block.size block.members.toList).Alike
      (.struct block'.size block'.members.toList) := by
  simp only [Layout.Alike, Layout.struct, unnamed, unnamedMembers?, unnamedMembers_eq, h.size_eq,
    h.members_eq]

theorem Block.Alike.push {block block' : Block} (h : block.Alike block') {size : Word}
    {member : Ident} {kind : TypeKind} (name name' : String) (hlayout : base.Alike base') :
    Block.Alike ⟨size, block.members.push ⟨name, member, kind, base⟩⟩
      ⟨size, block'.members.push ⟨name', member, kind, base'⟩⟩ := by
  refine ⟨rfl, ?_⟩
  simp only [Array.toList_push, List.map_append, h.members_eq, List.map_singleton, unnamedMember]
  rw [hlayout]

end Alike

/-- How the outcomes of two runs that differ in names compare. They agree up to what was spent on
names, or one of the runs was cut off because its type is too complex. -/
inductive Agree {α : Type} (same : α → α → Prop) :
    Except LayoutError (α × Budget) → Except LayoutError (α × Budget) → Prop
  | ok {value value' spent spent'} : same value value' → spent.visited = spent'.visited →
      Agree same (.ok (value, spent)) (.ok (value', spent'))
  | error (error) : Agree same (.error error) (.error error)
  | cutFirst (node outcome) : Agree same (.error (.tooComplex node)) outcome
  | cutSecond (outcome node) : Agree same outcome (.error (.tooComplex node))

/-- Whether two queries agree whenever they start after equally many visits. -/
def InStep {α : Type} (same : α → α → Prop) (query query' : Query α) : Prop :=
  ∀ budget budget' : Budget, budget.visited = budget'.visited →
    Agree same (query.run budget) (query'.run budget')

section Queries

variable {α β : Type} {same : α → α → Prop} {same' : β → β → Prop}

theorem inStep_pure {value value' : α} (h : same value value') :
    InStep same (pure value) (pure value') :=
  fun _ _ hvisited => .ok h hvisited

theorem inStep_throw (error : LayoutError) : InStep same (throw error) (throw error) :=
  fun _ _ _ => .error error

theorem inStep_lift (hrefl : ∀ value, same value value) (outcome : Except LayoutError α) :
    InStep same (liftM outcome) (liftM outcome) := by
  intro budget budget' hvisited
  cases outcome with
  | error error => exact .error error
  | ok value => exact .ok (hrefl value) hvisited

theorem InStep.bind {query query' : Query α} {next next' : α → Query β}
    (h : InStep same query query')
    (hnext : ∀ value value', same value value' → InStep same' (next value) (next' value')) :
    InStep same' (query >>= next) (query' >>= next') := by
  intro budget budget' hvisited
  have hfirst := h budget budget' hvisited
  rw [StateT.run_bind, StateT.run_bind]
  generalize query.run budget = outcome at hfirst ⊢
  generalize query'.run budget' = outcome' at hfirst ⊢
  cases hfirst with
  | ok hsame hspent => exact hnext _ _ hsame _ _ hspent
  | error error => exact .error error
  | cutFirst node => exact .cutFirst node _
  | cutSecond _ node => exact .cutSecond _ node

theorem inStep_foldlM {step step' : β → α → Query β}
    (hstep : ∀ state state' item, same' state state' →
      InStep same' (step state item) (step' state' item))
    (items : List α) {state state' : β} (h : same' state state') :
    InStep same' (items.foldlM step state) (items.foldlM step' state') := by
  induction items generalizing state state' with
  | nil => exact inStep_pure h
  | cons item rest ih =>
      rw [List.foldlM_cons, List.foldlM_cons]
      exact (hstep state state' item h).bind fun _ _ hnext => ih hnext

theorem inStep_visit (id : Ident) : InStep Eq (visit id : Query Unit) (visit id) := by
  intro budget budget' hvisited
  have hcount : budget.visit.visited = budget'.visit.visited := congrArg (· + 1) hvisited
  have hover : budget'.visit.overNodes = budget.visit.overNodes := by
    rw [Budget.overNodes, Budget.overNodes, hcount]
  change Agree Eq (if budget.visit.overNodes then _ else _)
    (if budget'.visit.overNodes then _ else _)
  rw [hover]
  split
  · exact .error _
  · exact .ok rfl hcount

/-- The bytes of names differ, and so may where they run out, but that is all. -/
theorem inStep_copyName (id : Ident) (name name' : String) :
    InStep Eq (copyName id name) (copyName id name') := by
  intro budget budget' hvisited
  change Agree Eq (if (budget.copyName name).overNames then _ else _)
    (if (budget'.copyName name').overNames then _ else _)
  split
  · exact .cutFirst id _
  · split
    · exact .cutSecond _ id
    · exact .ok rfl hvisited

/-- Fresh runs of queries in step give alike values or the same error, unless the second is cut
off. Nothing is said of a first run that was cut off itself. -/
theorem InStep.run' {query query' : Query α} (h : InStep same query query') :
    (∀ value, query.run' {} = .ok value →
      (∃ value', query'.run' {} = .ok value' ∧ same value value') ∨
        ∃ node, query'.run' {} = .error (.tooComplex node)) ∧
      ∀ error, query.run' {} = .error error → (∀ node, error ≠ .tooComplex node) →
        query'.run' {} = .error error ∨ ∃ node, query'.run' {} = .error (.tooComplex node) := by
  have hruns := h {} {} rfl
  have hvalue : ∀ query : Query α, query.run' {} = (query.run {}).map Prod.fst := fun _ => rfl
  simp only [hvalue]
  generalize query.run {} = outcome at hruns ⊢
  generalize query'.run {} = outcome' at hruns ⊢
  cases hruns with
  | ok hsame =>
      constructor
      · rintro _ ⟨⟩
        exact .inl ⟨_, rfl, hsame⟩
      · rintro _ ⟨⟩
  | error error =>
      constructor
      · rintro _ ⟨⟩
      · rintro _ ⟨⟩ -
        exact .inl rfl
  | cutFirst node =>
      constructor
      · rintro _ ⟨⟩
      · rintro _ ⟨⟩ hother
        exact absurd rfl (hother node)
  | cutSecond _ node => exact ⟨fun _ _ => .inr ⟨node, rfl⟩, fun _ _ _ => .inr ⟨node, rfl⟩⟩

end Queries

section Resolve

variable {m m' : ShaderModule} {layoutOf layoutOf' : Ident → Query Layout}

theorem inStep_add (hkinds : m'.kind? = m.kind?)
    (hlayouts : ∀ id, InStep Alike (layoutOf id) (layoutOf' id)) (id : Ident)
    {block block' : Block} (member : Ident) (h : block.Alike block') :
    InStep Block.Alike (Block.add m layoutOf id block member)
      (Block.add m' layoutOf' id block' member) := by
  unfold Block.add
  rw [hkinds]
  cases m.kind? member with
  | none => exact inStep_throw _
  | some kind =>
      refine (hlayouts member).bind fun layout layout' hlayout => ?_
      refine (inStep_copyName id _ _).bind fun _ _ _ => ?_
      rw [← h.size_eq, ← hlayout.fields.2.1]
      cases Word.add? block.size layout.size with
      | none => exact inStep_throw _
      | some size => exact inStep_pure (h.push _ _ hlayout)

theorem inStep_repeated {base base' : Layout} (h : base.Alike base') (id : Ident) (shape : Shape)
    (name : String) {baseType baseType' : String} (hbaseType : baseType = baseType')
    {count count' : Word} (hcount : count' = count) :
    InStep Alike (liftM (repeated id shape name base baseType count))
      (liftM (repeated id shape name base' baseType' count')) := by
  rw [hbaseType, hcount, h.repeated_eq]
  exact inStep_lift .refl _

theorem inStep_ofKind (hkinds : m'.kind? = m.kind?) (hlengths : m'.arrayLength = m.arrayLength)
    (hlayouts : ∀ id, InStep Alike (layoutOf id) (layoutOf' id)) (id : Ident) (kind : TypeKind) :
    InStep Alike (ofKind m layoutOf id kind) (ofKind m' layoutOf' id kind) := by
  cases kind with
  | void | bool | int | float | image | sampler => exact inStep_pure (.refl _)
  | vector component =>
      exact (hlayouts component).bind
        fun _ _ hbase => inStep_repeated hbase _ _ _ hbase.fields.1 rfl
  | array element length =>
      exact (hlayouts element).bind
        fun _ _ hbase => inStep_repeated hbase _ _ _ hbase.fields.1 (congrFun hlengths length)
  | matrix column =>
      exact (hlayouts column).bind fun _ _ hbase => inStep_repeated hbase _ _ _ rfl rfl
  | sampledImage base =>
      refine (hlayouts base).bind fun image image' himage => inStep_pure ?_
      rw [himage.sampled_eq]
      exact .refl _
  | pointer => exact inStep_throw _
  | struct members =>
      have hmembers : InStep Block.Alike (members.foldlM (Block.add m layoutOf id) {})
          (members.foldlM (Block.add m' layoutOf' id) {}) :=
        inStep_foldlM (fun _ _ member hblock => inStep_add hkinds hlayouts id member hblock)
          members ⟨rfl, rfl⟩
      exact hmembers.bind fun _ _ hblock => inStep_pure hblock.struct

/-- Two modules with the same types and lengths of arrays are resolved in step. -/
theorem inStep_resolve (hkinds : m'.kind? = m.kind?) (hlengths : m'.arrayLength = m.arrayLength)
    (levels : Nat) (id : Ident) :
    InStep Alike (resolve m levels id) (resolve m' levels id) := by
  induction levels generalizing id with
  | zero => exact inStep_throw _
  | succ levels ih =>
      rw [resolve_succ, resolve_succ, hkinds]
      refine (inStep_visit id).bind fun _ _ _ => ?_
      cases m.kind? id with
      | none => exact inStep_pure (.refl _)
      | some kind => exact inStep_ofKind hkinds hlengths ih id kind

end Resolve

end Layout

namespace ShaderModule

variable {m m' : ShaderModule} {id : Ident} {layout : Layout} {error : LayoutError}

theorem kind?_congr (htypes : m'.types = m.types) : m'.kind? = m.kind? := by
  funext id
  rw [kind?, kind?, type?, type?, htypes]

theorem arrayLength_congr (hconstants : m'.constants = m.constants) :
    m'.arrayLength = m.arrayLength := by
  funext length
  rw [arrayLength, arrayLength, constant?, constant?, hconstants]

theorem nodes_congr (hkinds : m'.kind? = m.kind?) (levels : Nat) (id : Ident) :
    m'.nodes levels id = m.nodes levels id := by
  have hparts : ∀ id, m'.parts id = m.parts id := by
    intro id
    rw [parts, parts, hkinds]
  induction levels generalizing id with
  | zero => rfl
  | succ levels ih =>
      rw [nodes, nodes, hparts]
      congr 1
      exact List.flatMap_congr fun part _ => ih part

/-- A type that is too complex in one module only has too long names of members there. -/
theorem long_names_of_tooComplex (hkinds : m'.kind? = m.kind?) {node : Ident}
    (hok : m.typeLayout id = .ok layout) (hcut : m'.typeLayout id = .error (.tooComplex node)) :
    maxNameBytes < ((m'.nodes (maxLayoutDepth + 1) id).map m'.labelBytes).sum := by
  obtain ⟨-, hlimits⟩ := typeLayout_eq_ok_iff.mp hok
  have hfew := hlimits.few
  rw [← nodes_congr hkinds] at hfew
  rcases (explained_of_resolve hcut).large node rfl with hmany | hlong
  · omega
  · exact hlong

/-- Layouts do not depend on names and decorations. In two modules with the same types and
constants, a type has the same layout up to the names of members, or the same error, but one of the
modules may have names that are too long in total. -/
theorem typeLayout_ignores_names (htypes : m'.types = m.types)
    (hconstants : m'.constants = m.constants) (id : Ident) :
    (∀ layout, m.typeLayout id = .ok layout →
      (∃ layout', m'.typeLayout id = .ok layout' ∧ layout'.unnamed = layout.unnamed) ∨
        (∃ node, m'.typeLayout id = .error (.tooComplex node)) ∧
          maxNameBytes < ((m'.nodes (maxLayoutDepth + 1) id).map m'.labelBytes).sum) ∧
      ∀ error, m.typeLayout id = .error error → (∀ node, error ≠ .tooComplex node) →
        m'.typeLayout id = .error error ∨ ∃ node, m'.typeLayout id = .error (.tooComplex node) := by
  have hkinds := kind?_congr htypes
  have hstep := Layout.inStep_resolve hkinds (arrayLength_congr hconstants) (maxLayoutDepth + 1) id
  obtain ⟨hok, herror⟩ := hstep.run'
  refine ⟨fun layout hlayout => ?_, herror⟩
  rcases hok layout hlayout with ⟨layout', hlayout', halike⟩ | ⟨node, hcut⟩
  · exact .inl ⟨layout', hlayout', halike.symm⟩
  · exact .inr ⟨⟨node, hcut⟩, long_names_of_tooComplex hkinds hlayout hcut⟩

/-- A struct over a struct whose members are named in one module only, which also decorates it. -/
theorem typeLayout_ignores_names_block :
    let types : List Declaration :=
      [.type (.ofKind 1 (.float 32)), .type (.ofKind 2 (.vector 1 4)),
        .type (.ofKind 3 (.struct [1, 2])), .type (.ofKind 4 (.struct [3, 1])),
        .type (.ofKind 5 (.pointer .uniform 4))]
    let m := ofDeclarations ⟨magicNumber, 0x10000, 0, 6, 0⟩ types
    let m' := ofDeclarations ⟨magicNumber, 0x10000, 0, 6, 0⟩
      (types ++ [.name 4 "Block", .memberName 4 0 "inner", .memberName 3 1 "color",
        .decorate 4 ⟨2, none, []⟩])
    ∃ layout layout', m.typeLayout 4 = .ok layout ∧ m'.typeLayout 4 = .ok layout' ∧
      layout'.unnamed = layout.unnamed ∧
      layout'.members.map (·.map (·.name)) = some ["inner", ""] := by
  intro types m m'
  have htypes : m'.types = m.types := rfl
  have hconstants : m'.constants = m.constants := rfl
  have hok : (m.typeLayout 4).isOk = true := by decide +kernel
  have hnames : (m'.typeLayout 4).toOption.bind (·.members.map (·.map (·.name))) =
      some ["inner", ""] := by decide +kernel
  obtain ⟨layout, hlayout⟩ := exists_of_isOk hok
  rcases (typeLayout_ignores_names htypes hconstants 4).1 layout hlayout with
    ⟨layout', hlayout', halike⟩ | ⟨⟨node, hcut⟩, -⟩
  · rw [hlayout'] at hnames
    exact ⟨layout, layout', hlayout, hlayout', halike, hnames⟩
  · rw [hcut] at hnames
    cases hnames

end ShaderModule

end ShaderReflection
