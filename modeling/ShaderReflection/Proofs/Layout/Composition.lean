import ShaderReflection.Proofs.Layout.Resolution

/-!
Layouts are put together from those that the parts have on their own. A part is reached deeper down
and with a budget that is partly used, but that only decides whether there is a layout, not which.
-/

namespace ShaderReflection.ShaderModule

/-- How the layout of a type is put together from the answers for its parts. -/
structure Composed (m : ShaderModule) (id : Ident) (layout : Layout) : Prop where
  ofStruct : ∀ members, m.kind? id = some (.struct members) →
    ∃ entries, layout.members = some entries ∧ entries.length = members.length ∧
      (∀ place member, members[place]? = some member →
        ∃ entry, entries[place]? = some entry ∧ entry.typeId = member ∧
          m.kind? member = some entry.kind ∧ entry.name = m.memberLabel id place ∧
          m.typeLayout member = .ok entry.layout) ∧
      layout.size.toNat = (entries.map (·.layout.size.toNat)).sum ∧ layout.baseSize = layout.size
  ofRepetition : ∀ repetition, m.repetition? id = some repetition →
    ∃ element, m.typeLayout repetition.base = .ok element ∧
      layout.size.toNat = element.size.toNat * repetition.count.toNat ∧
      layout.baseSize = element.size ∧ layout.baseCount = repetition.count ∧
      layout.baseType = repetition.elementName element
  ofSampledImage : ∀ base, m.kind? id = some (.sampledImage base) →
    ∃ image, m.typeLayout base = .ok image ∧
      layout.size = image.size ∧ layout.baseSize = image.baseSize ∧ layout.image = image.image

variable {m : ShaderModule} {id : Ident} {layout : Layout}

theorem Entries.getElem? {start : Nat} {members : List Ident} {entries : List (Member Layout)}
    (h : m.Entries id start members entries) {place : Nat} {member : Ident}
    (hmember : members[place]? = some member) :
    ∃ entry, entries[place]? = some entry ∧ entry.typeId = member ∧
      m.kind? member = some entry.kind ∧ entry.name = m.memberLabel id (start + place) := by
  obtain ⟨hplace, -⟩ := List.getElem?_eq_some_iff.mp hmember
  have hname : (entries.map (·.name))[place]? = some (m.memberLabel id (start + place)) := by
    rw [h.names, labels, List.getElem?_map, List.getElem?_range' hplace, Option.map_some,
      Nat.one_mul]
  rw [← h.types, List.getElem?_map, Option.map_eq_some_iff] at hmember
  obtain ⟨entry, hentry, rfl⟩ := hmember
  rw [List.getElem?_map, hentry, Option.map_some, Option.some.injEq] at hname
  exact ⟨entry, hentry, rfl, h.kinds entry (List.mem_of_getElem? hentry), hname⟩

/-- The layout that a part has below a type is the answer for the part on its own. -/
theorem typeLayout_of_part {part : Ident} {inner : Layout} (h : m.typeLayout id = .ok layout)
    (hpart : part ∈ m.parts id) (hinner : m.HasLayout part inner) :
    m.typeLayout part = .ok inner := by
  obtain ⟨-, hlimits⟩ := typeLayout_eq_ok_iff.mp h
  exact typeLayout_eq_ok_iff.mpr ⟨hinner, (hlimits.of_part hpart).succ⟩

theorem composed_of_typeLayout (h : m.typeLayout id = .ok layout) : m.Composed id layout := by
  obtain ⟨hlayout, -⟩ := typeLayout_eq_ok_iff.mp h
  constructor
  · intro members hkind
    obtain ⟨entries, size, hentries, hlayouts, hsize, rfl⟩ :=
      (hasLayout_struct_iff hkind).mp hlayout
    refine ⟨entries, rfl, ?_, ?_, hsize, rfl⟩
    · rw [← hentries.types, List.length_map]
    · intro place member hmember
      obtain ⟨entry, hentry, htype, hentryKind, hname⟩ := hentries.getElem? hmember
      rw [Nat.zero_add] at hname
      have hpart : member ∈ m.parts id := by
        rw [parts_of_struct hkind]
        exact List.mem_of_getElem? hmember
      have hinner := hlayouts entry (List.mem_of_getElem? hentry)
      rw [htype] at hinner
      exact ⟨entry, hentry, htype, hentryKind, hname, typeLayout_of_part h hpart hinner⟩
  · intro repetition hrepetition
    obtain ⟨element, size, hbase, hsize, rfl⟩ := (hasLayout_repetition_iff hrepetition).mp hlayout
    have hpart : repetition.base ∈ m.parts id := by
      rw [parts_of_repetition hrepetition]
      exact List.mem_singleton_self _
    exact ⟨element, typeLayout_of_part h hpart hbase, hsize, rfl, rfl, rfl⟩
  · intro base hkind
    obtain ⟨image, hbase, rfl⟩ := (hasLayout_sampledImage_iff hkind).mp hlayout
    have hpart : base ∈ m.parts id := by
      rw [parts_of_sampledImage hkind]
      exact List.mem_singleton_self _
    exact ⟨image, typeLayout_of_part h hpart hbase, rfl, rfl, rfl⟩

theorem pointee_eq_ok_iff {pointee : Ident} :
    m.pointee id = .ok pointee ↔
      ∃ declared storage, m.variableAt? id = some declared ∧
        m.kind? declared.type = some (.pointer storage pointee) ∧ m.kind? pointee ≠ none := by
  unfold ShaderModule.pointee
  constructor
  · intro h
    split at h
    · cases h
    next declared hdeclared =>
      split at h
      · cases h
      · next storage target hkind =>
          split at h
          · cases h
          · next hdefined =>
              cases h
              exact ⟨declared, storage, hdeclared, hkind, by simpa using hdefined⟩
      · cases h
  · rintro ⟨declared, storage, hdeclared, hkind, hdefined⟩
    simp only [hdeclared, hkind]
    rw [if_neg (by simpa using hdefined)]

/-- Every layout is put together from the answers for its parts on their own, with exact sizes. What
a variable points to has the layout that it has on its own. -/
theorem layouts_composed (m : ShaderModule) :
    (∀ id layout, m.typeLayout id = .ok layout → m.Composed id layout) ∧
      ∀ id layout, m.variableLayout id = .ok layout →
        ∃ declared storage pointee, m.variableAt? id = some declared ∧
          m.kind? declared.type = some (.pointer storage pointee) ∧
          m.typeLayout pointee = .ok layout := by
  constructor
  · intro id layout h
    exact composed_of_typeLayout h
  · intro id layout h
    obtain ⟨pointee, hpointee, hlayout, hlimits⟩ := variableLayout_eq_ok_iff.mp h
    obtain ⟨declared, storage, hdeclared, hkind, -⟩ := pointee_eq_ok_iff.mp hpointee
    exact ⟨declared, storage, pointee, hdeclared, hkind,
      typeLayout_eq_ok_iff.mpr ⟨hlayout, hlimits.succ⟩⟩

theorem layouts_composed_textured_block :
    let m := ofDeclarations ⟨magicNumber, 0x10000, 0, 10, 0⟩
      [.memberName 7 1 "weights", .type (.ofKind 1 (.float 32)), .type (.ofKind 2 (.vector 1 4)),
        .type (.ofKind 3 (.image ⟨1, .plane, 0, false, false, 1, 0⟩)),
        .type (.ofKind 4 (.sampledImage 3)), .constant ⟨5, 1, [3]⟩, .type (.ofKind 6 (.array 2 5)),
        .type (.ofKind 7 (.struct [2, 6, 4, 2])), .type (.ofKind 8 (.pointer .uniform 7)),
        .moduleVariable ⟨9, 8, .uniform⟩]
    ∃ layout, m.variableLayout 9 = .ok layout ∧ m.typeLayout 7 = .ok layout ∧
      layout.size = 82 ∧ m.Composed 7 layout := by
  intro m
  have hok : (m.variableLayout 9).isOk = true := by decide +kernel
  have hsize : ((m.variableLayout 9).map (·.size)).toOption = some 82 := by decide +kernel
  have hvariable : m.variableAt? 9 = some ⟨9, 8, .uniform⟩ := by decide +kernel
  have hkind : m.kind? 8 = some (.pointer .uniform 7) := by decide +kernel
  obtain ⟨layout, hlayout⟩ := exists_of_isOk hok
  obtain ⟨declared, storage, pointee, hdeclared, hpointer, hpointee⟩ :=
    (layouts_composed m).2 9 layout hlayout
  obtain rfl := Option.some.inj (hvariable.symm.trans hdeclared)
  cases hkind.symm.trans hpointer
  rw [hlayout] at hsize
  exact ⟨layout, hlayout, hpointee, Option.some.inj hsize,
    (layouts_composed m).1 7 layout hpointee⟩

end ShaderReflection.ShaderModule
