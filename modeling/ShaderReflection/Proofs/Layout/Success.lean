import ShaderReflection.Proofs.Layout.Resolution

/-!
When a type has a layout. The depth, the number of nodes and the bytes of names are limits on the
whole tree; everything else is asked of each node on its own.
-/

namespace ShaderReflection.ShaderModule

/-- Whether a type is a node of the tree of another. -/
def InTree (m : ShaderModule) (id node : Ident) : Prop := ∃ depth, node ∈ m.level depth id

/-- What a node of a tree must be: not a pointer, without undefined members, and small enough. -/
structure Proper (m : ShaderModule) (node : Ident) : Prop where
  notPointer : ∀ storage pointee, m.kind? node ≠ some (.pointer storage pointee)
  defined : ∀ members, m.kind? node = some (.struct members) →
    ∀ member ∈ members, m.kind? member ≠ none
  fits : ∀ size, m.HasSize node size → size < UInt32.size

/-- What the tree of a type must be for the type to have a layout. -/
structure Admissible (m : ShaderModule) (id : Ident) : Prop where
  shallow : ∀ depth node, node ∈ m.level depth id → depth ≤ maxLayoutDepth
  few : ∀ depth, (m.nodes depth id).length ≤ maxTypeNodes
  shortNames : ∀ depth, ((m.nodes depth id).map m.labelBytes).sum ≤ maxNameBytes
  proper : ∀ node, m.InTree id node → m.Proper node

variable {m : ShaderModule} {id node : Ident}

theorem InTree.self (m : ShaderModule) (id : Ident) : m.InTree id id :=
  ⟨0, List.mem_singleton_self id⟩

theorem InTree.of_part {part : Ident} (hpart : part ∈ m.parts id) (hnode : m.InTree part node) :
    m.InTree id node := by
  obtain ⟨depth, hnode⟩ := hnode
  exact ⟨depth + 1, mem_level_succ.mpr ⟨part, hpart, hnode⟩⟩

section Nodes

theorem proper_of_hasLayout {layout : Layout} (h : m.HasLayout id layout) : m.Proper id where
  notPointer _ _ hkind := not_hasLayout_pointer hkind h
  defined members hkind member hmember := by
    obtain ⟨entries, _, hentries, -⟩ := (hasLayout_struct_iff hkind).mp h
    rw [← hentries.types] at hmember
    obtain ⟨entry, hentry, rfl⟩ := List.mem_map.mp hmember
    rw [hentries.kinds entry hentry]
    exact Option.some_ne_none _
  fits size hsize := by
    rw [← hsize.eq_of_hasLayout h]
    exact layout.size.toNat_lt_size

theorem entries_zipIdx (members : List Ident) (kindOf : Ident → TypeKind)
    (layoutOf : Ident → Layout)
    (hkind : ∀ member ∈ members, m.kind? member = some (kindOf member)) :
    m.Entries id 0 members (members.zipIdx.map fun (member, place) =>
      ⟨m.memberLabel id place, member, kindOf member, layoutOf member⟩) where
  types := by
    rw [List.map_map]
    exact List.zipIdx_map_fst 0 members
  names := by
    rw [List.map_map, labels, ← List.zipIdx_map_snd 0 members, List.map_map]
    rfl
  kinds entry hentry := by
    obtain ⟨⟨member, place⟩, hmember, rfl⟩ := List.mem_map.mp hentry
    exact hkind member (List.fst_mem_of_mem_zipIdx hmember)

/-- Members that are defined and have layouts give the entries of a struct. -/
theorem exists_entries (id : Ident) {members : List Ident}
    (hdefined : ∀ member ∈ members, m.kind? member ≠ none)
    (hparts : ∀ member ∈ members, ∃ layout, m.HasLayout member layout) :
    ∃ entries, m.Entries id 0 members entries ∧
      ∀ entry ∈ entries, m.HasLayout entry.typeId entry.layout := by
  have : Nonempty Layout := ⟨.undefined⟩
  have : Nonempty TypeKind := ⟨.void⟩
  choose! layoutOf hlayouts using hparts
  choose! kindOf hkinds using fun member hmember =>
    Option.ne_none_iff_exists'.mp (hdefined member hmember)
  refine ⟨_, entries_zipIdx members kindOf layoutOf hkinds, ?_⟩
  intro entry hentry
  obtain ⟨⟨member, place⟩, hmember, rfl⟩ := List.mem_map.mp hentry
  exact hlayouts member (List.fst_mem_of_mem_zipIdx hmember)

/-- A proper node has a layout if all its parts have one. -/
theorem Proper.exists_hasLayout (hproper : m.Proper id)
    (hparts : ∀ part ∈ m.parts id, ∃ layout, m.HasLayout part layout) :
    ∃ layout, m.HasLayout id layout := by
  rcases kind_cases (m := m) id with ⟨leaf, hleaf⟩ | ⟨repetition, hrepetition⟩ | ⟨base, hkind⟩ |
    ⟨members, hkind⟩ | ⟨storage, pointee, hkind⟩
  · exact ⟨leaf, .leaf hleaf⟩
  · rw [parts_of_repetition hrepetition, List.forall_mem_singleton] at hparts
    obtain ⟨element, hlayout⟩ := hparts
    have hproduct := HasSize.repeated hrepetition hlayout.hasSize
    obtain ⟨size, hexact⟩ := Word.exists_toNat_eq (hproper.fits _ hproduct)
    exact ⟨_, .repeated hrepetition hlayout hexact⟩
  · rw [parts_of_sampledImage hkind, List.forall_mem_singleton] at hparts
    obtain ⟨image, hlayout⟩ := hparts
    exact ⟨_, .sampledImage hkind hlayout⟩
  · rw [parts_of_struct hkind] at hparts
    obtain ⟨entries, hentries, hlayouts⟩ :=
      exists_entries id (hproper.defined members hkind) hparts
    have hsum := hasSize_of_entries hkind hentries hlayouts
      fun entry hentry => (hlayouts entry hentry).hasSize
    obtain ⟨size, hexact⟩ := Word.exists_toNat_eq (hproper.fits _ hsum)
    exact ⟨.struct size entries, .struct hkind hentries hlayouts hexact⟩
  · exact absurd hkind (hproper.notPointer storage pointee)

/-- A type whose tree ends and has proper nodes only has a layout, and that has the exact size. -/
theorem exists_hasLayout {depth : Nat} (hshallow : m.level depth id = [])
    (hproper : ∀ node, m.InTree id node → m.Proper node) :
    ∃ layout, m.HasLayout id layout ∧ m.HasSize id layout.size.toNat := by
  induction depth generalizing id with
  | zero => cases hshallow
  | succ depth ih =>
      have hparts : ∀ part ∈ m.parts id, ∃ layout, m.HasLayout part layout := by
        intro part hpart
        obtain ⟨layout, hlayout, -⟩ := ih (level_succ_eq_nil_iff.mp hshallow part hpart)
          fun node hnode => hproper node (hnode.of_part hpart)
        exact ⟨layout, hlayout⟩
      obtain ⟨layout, hlayout⟩ := (hproper id (.self m id)).exists_hasLayout hparts
      exact ⟨layout, hlayout, hlayout.hasSize⟩

end Nodes

section Trees

theorem level_eq_nil_iff_shallow {limit : Nat} :
    m.level (limit + 1) id = [] ↔ ∀ depth node, node ∈ m.level depth id → depth ≤ limit := by
  constructor
  · intro hshallow depth node hnode
    by_contra hdeep
    rw [level_eq_nil_of_le (by omega) hshallow] at hnode
    cases hnode
  · intro hshallow
    rw [List.eq_nil_iff_forall_not_mem]
    intro node hnode
    have := hshallow _ node hnode
    omega

theorem admissible_iff :
    m.Admissible id ↔
      (∃ layout, m.HasLayout id layout) ∧ m.WithinLimits (maxLayoutDepth + 1) id := by
  constructor
  · rintro ⟨hshallow, hfew, hshort, hproper⟩
    rw [← level_eq_nil_iff_shallow] at hshallow
    obtain ⟨layout, hlayout, -⟩ := exists_hasLayout hshallow hproper
    exact ⟨⟨layout, hlayout⟩, hshallow, hfew _, hshort _⟩
  · rintro ⟨⟨layout, hlayout⟩, hlimits⟩
    constructor
    · exact level_eq_nil_iff_shallow.mp hlimits.shallow
    · intro depth
      have hsublist := nodes_sublist_of_level_eq_nil hlimits.shallow depth
      exact hsublist.length_le.trans hlimits.few
    · intro depth
      have hsublist := nodes_sublist_of_level_eq_nil hlimits.shallow depth
      exact (sum_labelBytes_le hsublist).trans hlimits.shortNames
    · rintro node ⟨depth, hnode⟩
      obtain ⟨_, hnode⟩ := hlayout.of_mem_level hnode
      exact proper_of_hasLayout hnode

/-- A tree with a node that is below itself has no last level. -/
theorem not_shallow_of_cycle {limit period : Nat} (hnode : m.InTree id node)
    (hcycle : node ∈ m.level (period + 1) node) :
    ¬ ∀ depth node, node ∈ m.level depth id → depth ≤ limit := by
  intro hshallow
  obtain ⟨depth, hnode⟩ := hnode
  have hagain : node ∈ m.level (depth + (limit + 1) * (period + 1)) id := by
    rw [level_add, List.mem_flatMap]
    exact ⟨node, hnode, mem_level_mul hcycle _⟩
  have hle := hshallow _ node hagain
  have : limit + 1 ≤ (limit + 1) * (period + 1) := Nat.le_mul_of_pos_right _ (Nat.succ_pos _)
  omega

end Trees

/-- A type has a layout exactly if its tree keeps within the limits on depth, nodes and names, and
each node is proper. The layout then has the one size that the type has. A type that contains
itself, or that reaches one that does, never has a layout. -/
theorem typeLayout_succeeds_iff (m : ShaderModule) (id : Ident) :
    ((∃ layout, m.typeLayout id = .ok layout) ↔ m.Admissible id) ∧
      (∀ layout, m.typeLayout id = .ok layout →
        ∀ size, m.HasSize id size ↔ size = layout.size.toNat) ∧
      ∀ node period, m.InTree id node → node ∈ m.level (period + 1) node →
        ∀ layout, m.typeLayout id ≠ .ok layout := by
  have hiff : (∃ layout, m.typeLayout id = .ok layout) ↔ m.Admissible id := by
    simp only [typeLayout_eq_ok_iff, exists_and_right, admissible_iff]
  refine ⟨hiff, ?_, ?_⟩
  · intro layout hlayout size
    have hadmissible := hiff.mp ⟨layout, hlayout⟩
    have hown := (typeLayout_eq_ok_iff.mp hlayout).1
    obtain ⟨other, -, hsize⟩ :=
      exists_hasLayout (level_eq_nil_iff_shallow.mpr hadmissible.shallow) hadmissible.proper
    constructor
    · intro h
      exact (h.eq_of_hasLayout hown).symm
    · rintro rfl
      rwa [hsize.eq_of_hasLayout hown]
  · intro node period hnode hcycle layout hlayout
    have hadmissible := hiff.mp ⟨layout, hlayout⟩
    exact not_shallow_of_cycle hnode hcycle hadmissible.shallow

theorem typeLayout_succeeds_iff_list_node :
    let m := ofDeclarations ⟨magicNumber, 0x10000, 0, 5, 0⟩
      [.type (.ofKind 1 (.float 32)), .type (.ofKind 2 (.struct [1, 3])),
        .type (.ofKind 3 (.array 2 4)), .type (.ofKind 4 (.vector 1 4))]
    m.Admissible 4 ∧ ∀ layout, m.typeLayout 2 ≠ .ok layout := by
  intro m
  have hok : (m.typeLayout 4).isOk = true := by decide +kernel
  have hcycle : 2 ∈ m.level (1 + 1) 2 := by decide +kernel
  exact ⟨(typeLayout_succeeds_iff m 4).1.mp (exists_of_isOk hok),
    (typeLayout_succeeds_iff m 2).2.2 2 1 (.self m 2) hcycle⟩

end ShaderReflection.ShaderModule
