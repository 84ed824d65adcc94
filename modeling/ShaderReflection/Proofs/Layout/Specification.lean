import Mathlib.Tactic.Choose
import ShaderReflection.Proofs.Layout.Expansion

/-!
Which layout a type has, whatever the order of the work and the limits on it. It is put together
from the layouts of the parts, which are those that the parts have on their own.
-/

namespace ShaderReflection

/-- The name of the element type over the layout of a base. A matrix always has vectors. -/
def Repetition.elementName (repetition : Repetition) (element : Layout) : String :=
  if repetition.shape = .matrix then "vector" else element.name

/-- The layout of a repetition over the layout of its base, taking `size` bytes. -/
def Repetition.layout (repetition : Repetition) (element : Layout) (size : Word) : Layout where
  shape := repetition.shape
  name := repetition.name
  size
  baseSize := element.size
  baseType := repetition.elementName element
  baseCount := repetition.count

namespace ShaderModule

variable (m : ShaderModule)

/-- The layout of a type that is not made of others. -/
def leafLayout? : Option TypeKind → Option Layout
  | none => some .undefined
  | some (.image type) => some (.ofImage type)
  | some .sampler => some .sampler
  | some kind => kind.storedSize?.map (.scalar kind.displayName)

/-- The entries of a struct for its members from place `start` on: each carries the member's type,
kind and name. -/
structure Entries (id : Ident) (start : Nat) (members : List Ident)
    (entries : List (Member Layout)) : Prop where
  types : entries.map (·.typeId) = members
  names : entries.map (·.name) = m.labels id start members.length
  kinds : ∀ entry ∈ entries, m.kind? entry.typeId = some entry.kind

/-- The layout of a type. -/
inductive HasLayout : Ident → Layout → Prop
  | leaf {id layout} : leafLayout? (m.kind? id) = some layout → HasLayout id layout
  | repeated {id repetition element size} :
      m.repetition? id = some repetition → HasLayout repetition.base element →
        size.toNat = element.size.toNat * repetition.count.toNat →
        HasLayout id (repetition.layout element size)
  | sampledImage {id base image} :
      m.kind? id = some (.sampledImage base) → HasLayout base image → HasLayout id (.sampled image)
  | struct {id members entries size} :
      m.kind? id = some (.struct members) → m.Entries id 0 members entries →
        (∀ entry ∈ entries, HasLayout entry.typeId entry.layout) →
        size.toNat = (entries.map (·.layout.size.toNat)).sum → HasLayout id (.struct size entries)

variable {m} {id : Ident}

/-- A type is a leaf, a repetition, a sampled image, a struct or a pointer. -/
theorem kind_cases (id : Ident) :
    (∃ layout, leafLayout? (m.kind? id) = some layout) ∨
      (∃ repetition, m.repetition? id = some repetition) ∨
      (∃ base, m.kind? id = some (.sampledImage base)) ∨
      (∃ members, m.kind? id = some (.struct members)) ∨
      ∃ storage pointee, m.kind? id = some (.pointer storage pointee) := by
  cases hkind : m.kind? id with
  | none => simp [leafLayout?]
  | some kind => cases kind <;> simp [leafLayout?, TypeKind.storedSize?, repetition?, hkind]

theorem leafLayout_cases {kind : Option TypeKind} {layout : Layout}
    (hleaf : leafLayout? kind = some layout) :
    (kind = none ∧ layout = .undefined) ∨
      (∃ type, kind = some (.image type) ∧ layout = .ofImage type) ∨
      (kind = some .sampler ∧ layout = .sampler) ∨
      ∃ scalar size, kind = some scalar ∧ scalar.storedSize? = some size ∧
        layout = .scalar scalar.displayName size := by
  unfold leafLayout? at hleaf
  split at hleaf
  · exact .inl ⟨rfl, (Option.some.inj hleaf).symm⟩
  · exact .inr (.inl ⟨_, rfl, (Option.some.inj hleaf).symm⟩)
  · exact .inr (.inr (.inl ⟨rfl, (Option.some.inj hleaf).symm⟩))
  · obtain ⟨size, hsize, rfl⟩ := Option.map_eq_some_iff.mp hleaf
    exact .inr (.inr (.inr ⟨_, size, rfl, hsize, rfl⟩))

theorem leafSize_eq (kind : Option TypeKind) :
    leafSize? kind = (leafLayout? kind).map (·.size.toNat) := by
  rcases kind with _ | kind
  · rfl
  · cases kind <;> try rfl
    case image type =>
      cases hdim : type.dim
      all_goals
        simp only [leafSize?, leafLayout?, imageSize, Layout.ofImage, hdim, Option.map_some]
        rfl

theorem leafSize_of_leafLayout {kind : Option TypeKind} {layout : Layout}
    (hleaf : leafLayout? kind = some layout) : leafSize? kind = some layout.size.toNat := by
  rw [leafSize_eq, hleaf, Option.map_some]

theorem leafLayout_of_repetition {repetition : Repetition}
    (hrepetition : m.repetition? id = some repetition) : leafLayout? (m.kind? id) = none := by
  cases hkind : m.kind? id with
  | none => simp [repetition?, hkind] at hrepetition
  | some kind => cases kind <;> first | rfl | simp [repetition?, hkind] at hrepetition

section Inversion

theorem hasLayout_leaf_iff {layout other : Layout}
    (hleaf : leafLayout? (m.kind? id) = some layout) : m.HasLayout id other ↔ other = layout := by
  constructor
  · intro h
    cases h with
    | leaf h => exact Option.some.inj (h.symm.trans hleaf)
    | repeated h =>
        rw [leafLayout_of_repetition h] at hleaf
        cases hleaf
    | sampledImage h => simp [h, leafLayout?, TypeKind.storedSize?] at hleaf
    | struct h => simp [h, leafLayout?, TypeKind.storedSize?] at hleaf
  · rintro rfl
    exact .leaf hleaf

theorem hasLayout_repetition_iff {repetition : Repetition} {layout : Layout}
    (hrepetition : m.repetition? id = some repetition) :
    m.HasLayout id layout ↔ ∃ element size, m.HasLayout repetition.base element ∧
      size.toNat = element.size.toNat * repetition.count.toNat ∧
      layout = repetition.layout element size := by
  constructor
  · intro h
    cases h with
    | leaf h =>
        rw [leafLayout_of_repetition hrepetition] at h
        cases h
    | repeated h hbase hsize =>
        obtain rfl := Option.some.inj (h.symm.trans hrepetition)
        exact ⟨_, _, hbase, hsize, rfl⟩
    | sampledImage h => simp [repetition?, h] at hrepetition
    | struct h => simp [repetition?, h] at hrepetition
  · rintro ⟨element, size, hbase, hsize, rfl⟩
    exact .repeated hrepetition hbase hsize

theorem hasLayout_sampledImage_iff {base : Ident} {layout : Layout}
    (hkind : m.kind? id = some (.sampledImage base)) :
    m.HasLayout id layout ↔ ∃ image, m.HasLayout base image ∧ layout = .sampled image := by
  constructor
  · intro h
    cases h with
    | leaf h => simp [hkind, leafLayout?, TypeKind.storedSize?] at h
    | repeated h => simp [repetition?, hkind] at h
    | sampledImage h hbase =>
        obtain rfl : base = _ := by simpa using hkind.symm.trans h
        exact ⟨_, hbase, rfl⟩
    | struct h => simp [hkind] at h
  · rintro ⟨image, hbase, rfl⟩
    exact .sampledImage hkind hbase

theorem hasLayout_struct_iff {members : List Ident} {layout : Layout}
    (hkind : m.kind? id = some (.struct members)) :
    m.HasLayout id layout ↔ ∃ entries size, m.Entries id 0 members entries ∧
      (∀ entry ∈ entries, m.HasLayout entry.typeId entry.layout) ∧
      size.toNat = (entries.map (·.layout.size.toNat)).sum ∧ layout = .struct size entries := by
  constructor
  · intro h
    cases h with
    | leaf h => simp [hkind, leafLayout?, TypeKind.storedSize?] at h
    | repeated h => simp [repetition?, hkind] at h
    | sampledImage h => simp [hkind] at h
    | struct h hentries hlayouts hsize =>
        obtain rfl : members = _ := by simpa using hkind.symm.trans h
        exact ⟨_, _, hentries, hlayouts, hsize, rfl⟩
  · rintro ⟨entries, size, hentries, hlayouts, hsize, rfl⟩
    exact .struct hkind hentries hlayouts hsize

theorem not_hasLayout_pointer {storage : StorageClass} {pointee : Ident} {layout : Layout}
    (hkind : m.kind? id = some (.pointer storage pointee)) : ¬ m.HasLayout id layout := by
  intro h
  cases h with
  | leaf h => simp [hkind, leafLayout?, TypeKind.storedSize?] at h
  | repeated h => simp [repetition?, hkind] at h
  | sampledImage h => simp [hkind] at h
  | struct h => simp [hkind] at h

end Inversion

section Entries

variable {start : Nat} {member : Ident} {members : List Ident}

theorem entries_nil_iff {entries : List (Member Layout)} :
    m.Entries id start [] entries ↔ entries = [] := by
  constructor
  · intro h
    simpa using h.types
  · rintro rfl
    exact ⟨rfl, rfl, by simp⟩

theorem entries_cons_iff {entry : Member Layout} {entries : List (Member Layout)} :
    m.Entries id start (member :: members) (entry :: entries) ↔
      entry.typeId = member ∧ entry.name = m.memberLabel id start ∧
      m.kind? member = some entry.kind ∧ m.Entries id (start + 1) members entries := by
  constructor
  · rintro ⟨htypes, hnames, hkinds⟩
    simp only [List.map_cons, List.cons.injEq, List.length_cons, labels_succ] at htypes hnames
    obtain ⟨rfl, htypes⟩ := htypes
    exact ⟨rfl, hnames.1, hkinds entry (by simp),
      ⟨htypes, hnames.2, fun other hother => hkinds other (by simp [hother])⟩⟩
  · rintro ⟨rfl, hname, hkind, htypes, hnames, hkinds⟩
    refine ⟨by simp [htypes], ?_, ?_⟩
    · rw [List.map_cons, List.length_cons, labels_succ, hname, hnames]
    · simpa using ⟨hkind, hkinds⟩

end Entries

section Parts

theorem HasLayout.of_part {layout : Layout} {part : Ident} (h : m.HasLayout id layout)
    (hpart : part ∈ m.parts id) : ∃ layout, m.HasLayout part layout := by
  cases h with
  | leaf hleaf =>
      rw [parts_of_leaf (leafSize_of_leafLayout hleaf)] at hpart
      cases hpart
  | repeated hrepetition hbase =>
      rw [parts_of_repetition hrepetition, List.mem_singleton] at hpart
      subst hpart
      exact ⟨_, hbase⟩
  | sampledImage hkind hbase =>
      rw [parts_of_sampledImage hkind, List.mem_singleton] at hpart
      subst hpart
      exact ⟨_, hbase⟩
  | struct hkind hentries hlayouts =>
      rw [parts_of_struct hkind, ← hentries.types] at hpart
      obtain ⟨entry, hentry, rfl⟩ := List.mem_map.mp hpart
      exact ⟨_, hlayouts entry hentry⟩

theorem HasLayout.of_mem_level {layout : Layout} {depth : Nat} {node : Ident}
    (h : m.HasLayout id layout) (hnode : node ∈ m.level depth id) :
    ∃ layout, m.HasLayout node layout := by
  induction depth generalizing id layout with
  | zero =>
      obtain rfl := List.mem_singleton.mp hnode
      exact ⟨layout, h⟩
  | succ depth ih =>
      obtain ⟨part, hpart, hnode⟩ := mem_level_succ.mp hnode
      obtain ⟨_, hlayout⟩ := h.of_part hpart
      exact ih hlayout hnode

/-- A layout has the exact size of its type. -/
theorem HasSize.eq_of_hasLayout {size : Nat} (hsize : m.HasSize id size) {layout : Layout}
    (hlayout : m.HasLayout id layout) : layout.size.toNat = size := by
  induction hsize generalizing layout with
  | leaf hleaf =>
      rw [leafSize_eq, Option.map_eq_some_iff] at hleaf
      obtain ⟨leaf, hleaf, hsize⟩ := hleaf
      rw [hasLayout_leaf_iff hleaf] at hlayout
      rw [hlayout, hsize]
  | repeated hrepetition _ ih =>
      rw [hasLayout_repetition_iff hrepetition] at hlayout
      obtain ⟨element, size, hbase, hsize, rfl⟩ := hlayout
      rw [← ih hbase, ← hsize]
      rfl
  | sampledImage hkind _ ih =>
      rw [hasLayout_sampledImage_iff hkind] at hlayout
      obtain ⟨image, hbase, rfl⟩ := hlayout
      rw [← ih hbase]
      rfl
  | struct sizeOf hkind _ ih =>
      rw [hasLayout_struct_iff hkind] at hlayout
      obtain ⟨entries, size, hentries, hlayouts, hsize, rfl⟩ := hlayout
      rw [← hentries.types, List.map_map]
      refine hsize.trans (congrArg List.sum (List.map_congr_left fun entry hentry => ?_))
      exact ih entry.typeId (hentries.types ▸ List.mem_map_of_mem hentry) (hlayouts entry hentry)

/-- The sizes of the layouts in some entries add up to the sizes of their types. -/
theorem sum_sizes_of_entries {entries : List (Member Layout)} {sizeOf : Ident → Nat}
    (hlayouts : ∀ entry ∈ entries, m.HasLayout entry.typeId entry.layout)
    (hsizes : ∀ entry ∈ entries, m.HasSize entry.typeId (sizeOf entry.typeId)) :
    (entries.map (·.layout.size.toNat)).sum = ((entries.map (·.typeId)).map sizeOf).sum := by
  rw [List.map_map]
  exact congrArg List.sum (List.map_congr_left fun entry hentry =>
    (hsizes entry hentry).eq_of_hasLayout (hlayouts entry hentry))

/-- A struct has the sum of the sizes of its entries, if these have the sizes of their types. -/
theorem hasSize_of_entries {members : List Ident} {entries : List (Member Layout)}
    (hkind : m.kind? id = some (.struct members)) (hentries : m.Entries id 0 members entries)
    (hlayouts : ∀ entry ∈ entries, m.HasLayout entry.typeId entry.layout)
    (hsizes : ∀ entry ∈ entries, m.HasSize entry.typeId entry.layout.size.toNat) :
    m.HasSize id (entries.map (·.layout.size.toNat)).sum := by
  -- A member may be used twice, so its size is chosen by its type and not by its place.
  choose! sizeOf hsizeOf using fun part (hpart : ∃ size, m.HasSize part size) => hpart
  have hparts : ∀ entry ∈ entries, m.HasSize entry.typeId (sizeOf entry.typeId) :=
    fun entry hentry => hsizeOf entry.typeId ⟨_, hsizes entry hentry⟩
  rw [sum_sizes_of_entries hlayouts hparts, hentries.types]
  refine .struct sizeOf hkind ?_
  rw [← hentries.types]
  exact List.forall_mem_map.mpr hparts

theorem HasLayout.hasSize {layout : Layout} (h : m.HasLayout id layout) :
    m.HasSize id layout.size.toNat := by
  induction h with
  | leaf hleaf => exact .leaf (leafSize_of_leafLayout hleaf)
  | repeated hrepetition _ hsize ih =>
      have hproduct := HasSize.repeated hrepetition ih
      rwa [← hsize] at hproduct
  | sampledImage hkind _ ih => exact .sampledImage hkind ih
  | struct hkind hentries hlayouts hsize ih =>
      have hsum := hasSize_of_entries hkind hentries hlayouts ih
      rwa [← hsize] at hsum

end Parts

end ShaderModule

end ShaderReflection
