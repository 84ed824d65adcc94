import ShaderReflection.Assembly
import ShaderReflection.Descriptor
import ShaderReflection.Proofs.Module.Records

/-!
The order of the descriptors. They are sorted by set and then by binding, and the sort is stable, so
among descriptors with the same numbers the declarations of their variables decide.
-/

namespace ShaderReflection

/-- Sorting keeps the order of items that may stand on either side of each other. -/
theorem filter_mergeSort {α : Type} {le : α → α → Bool} {alike : α → Bool}
    (htrans : ∀ a b c, le a b = true → le b c = true → le a c = true)
    (htotal : ∀ a b, (le a b || le b a) = true)
    (halike : ∀ a b, alike a = true → alike b = true → le a b = true) (items : List α) :
    (items.mergeSort le).filter alike = items.filter alike := by
  have hsorted : (items.filter alike).Pairwise fun a b => le a b = true := by
    apply List.pairwise_of_forall_mem_list
    intro a ha b hb
    exact halike a b (List.mem_filter.mp ha).2 (List.mem_filter.mp hb).2
  have hkept : (items.filter alike).Sublist (items.mergeSort le) :=
    List.sublist_mergeSort htrans htotal hsorted List.filter_sublist
  have hsublist := hkept.filter alike
  have hlength := ((List.mergeSort_perm items le).filter alike).length_eq
  simp only [List.filter_filter, Bool.and_self] at hsublist
  exact (hsublist.eq_of_length hlength.symm).symm

namespace Descriptor

theorem rank_lt_iff {a b : Option Word} : rank a < rank b ↔ a < b := by
  cases a <;> cases b <;> simp [rank, UInt32.lt_iff_toNat_lt]

theorem rank_inj {a b : Option Word} : rank a = rank b ↔ a = b := by
  cases a <;> cases b <;> simp [rank, UInt32.toNat_inj]

theorem inOrder_iff {a b : Descriptor} :
    a.inOrder b = true ↔ rank a.set < rank b.set ∨
      rank a.set = rank b.set ∧ rank a.binding ≤ rank b.binding := by
  simp [inOrder]

theorem inOrder_trans (a b c : Descriptor) (hab : a.inOrder b = true)
    (hbc : b.inOrder c = true) : a.inOrder c = true := by
  rw [inOrder_iff] at *
  omega

theorem inOrder_total (a b : Descriptor) : (a.inOrder b || b.inOrder a) = true := by
  rw [Bool.or_eq_true, inOrder_iff, inOrder_iff]
  omega

/-- Whether the numbers of a descriptor come before those of another in the lexicographic order or
are the same. -/
def NoLater (a b : Descriptor) : Prop :=
  a.set < b.set ∨ a.set = b.set ∧ (a.binding < b.binding ∨ a.binding = b.binding)

theorem noLater_iff {a b : Descriptor} : a.NoLater b ↔ a.inOrder b = true := by
  rw [NoLater, inOrder_iff, ← rank_lt_iff, ← rank_lt_iff, ← rank_inj, ← rank_inj]
  omega

end Descriptor

namespace ShaderModule

variable (m : ShaderModule)

theorem decorationArgs?_eq (id : Ident) (kind : Word) :
    m.decorationArgs? id kind =
      ((m.decorationsOf id).filter (·.kind == kind)).getLast?.map (·.args) := by
  rw [decorationArgs?, ← List.head?_filter, List.filter_reverse, List.head?_reverse]

theorem decorationValue?_eq (id : Ident) (kind : Word) :
    m.decorationValue? id kind =
      ((m.decorationsOf id).filter (·.kind == kind)).getLast?.bind (·.args.head?) := by
  rw [decorationValue?, decorationArgs?_eq, Option.bind_map]
  rfl

theorem map_variableId_descriptor (ids : List Ident) :
    (ids.map m.descriptor).map (·.variableId) = ids := by
  rw [List.map_map]
  exact List.map_id ids

theorem map_variableId_descriptors :
    (m.descriptors.map (·.variableId)).Perm m.uniformVariables.toList := by
  have hperm := List.mergeSort_perm (m.uniformVariables.toList.map m.descriptor) Descriptor.inOrder
  have hids := hperm.map (·.variableId)
  rwa [map_variableId_descriptor] at hids

theorem eq_descriptor_of_mem {descriptor : Descriptor} (hmem : descriptor ∈ m.descriptors) :
    descriptor = m.descriptor descriptor.variableId := by
  rw [descriptors, List.mem_mergeSort] at hmem
  obtain ⟨id, -, rfl⟩ := List.mem_map.mp hmem
  rfl

theorem pairwise_descriptors : m.descriptors.Pairwise Descriptor.NoLater := by
  have hsorted := List.pairwise_mergeSort Descriptor.inOrder_trans Descriptor.inOrder_total
    (m.uniformVariables.toList.map m.descriptor)
  exact hsorted.imp Descriptor.noLater_iff.mpr

/-- Among the descriptors with the same numbers, the order of the uniform variables decides. -/
theorem filter_descriptors_sublist (set binding : Option Word) :
    ((m.descriptors.filter fun d => d.set == set && d.binding == binding).map
      (·.variableId)).Sublist m.uniformVariables.toList := by
  have halike : ∀ a b : Descriptor, (a.set == set && a.binding == binding) = true →
      (b.set == set && b.binding == binding) = true → a.inOrder b = true := by
    intro a b ha hb
    simp only [Bool.and_eq_true, beq_iff_eq] at ha hb
    rw [← Descriptor.noLater_iff]
    right
    rw [ha.1, ha.2, hb.1, hb.2]
    exact ⟨rfl, Or.inr rfl⟩
  rw [descriptors, filter_mergeSort Descriptor.inOrder_trans Descriptor.inOrder_total halike]
  have hsublist := (List.filter_sublist (l := m.uniformVariables.toList.map m.descriptor)
    (p := fun d => d.set == set && d.binding == binding)).map (·.variableId)
  rwa [map_variableId_descriptor] at hsublist

theorem nodup_uniformVariables {declared : List Declaration} (hrecords : m.Records declared) :
    m.uniformVariables.toList.Nodup := by
  rw [hrecords.uniformVariables]
  have hkeys := nodup_map_fst_firsts (declared.filterMap Declaration.moduleVariable?)
  exact (List.filter_sublist.map _).nodup hkeys

/-- A uniform variable has exactly one descriptor. -/
theorem filter_variableId_descriptors (hdistinct : m.uniformVariables.toList.Nodup) {id : Ident}
    (huniform : id ∈ m.uniformVariables.toList) :
    m.descriptors.filter (·.variableId == id) = [m.descriptor id] := by
  have hperm := (List.mergeSort_perm (m.uniformVariables.toList.map m.descriptor)
    Descriptor.inOrder).filter (·.variableId == id)
  have hone : m.uniformVariables.toList.filter (· == id) = [id] := by
    rw [List.filter_beq, List.count_eq_one_of_mem hdistinct huniform, List.replicate_one]
  rw [List.filter_map] at hperm
  change (m.descriptors.filter _).Perm ((m.uniformVariables.toList.filter (· == id)).map _) at hperm
  rw [hone] at hperm
  exact List.perm_singleton.mp hperm

/-- The descriptors are the uniform variables, each of them once, in the order of their numbers, and
where the numbers agree in the order of their declarations. -/
theorem descriptors_sorted_stably {names : NameTable} {options : ParseOptions}
    {words : List Word} {m : ShaderModule} (hparsed : parse names options words = .ok m) :
    let declared := ((recognised names words).map (·.declaration names)).filterMap
      Declaration.moduleVariable?
    m.uniformVariables.toList =
      ((firsts declared).filter (·.2.storage.isUniform)).map (·.1) ∧
    m.uniformVariables.toList.Nodup ∧
    (m.descriptors.map (·.variableId)).Perm m.uniformVariables.toList ∧
    m.descriptors.Pairwise Descriptor.NoLater ∧
    (∀ set binding : Option Word,
      ((m.descriptors.filter fun d => d.set == set && d.binding == binding).map
        (·.variableId)).Sublist m.uniformVariables.toList) ∧
    ∀ d ∈ m.descriptors,
      d.set = ((m.decorationsOf d.variableId).filter (·.kind == setDecoration)).getLast?.bind
        (·.args.head?) ∧
      d.binding = ((m.decorationsOf d.variableId).filter
        (·.kind == bindingDecoration)).getLast?.bind (·.args.head?) ∧
      d.name = m.name? d.variableId ∧ d.layout = m.variableLayout d.variableId := by
  intro declared
  have hrecords := records_of_parse hparsed
  refine ⟨hrecords.uniformVariables, nodup_uniformVariables m hrecords,
    map_variableId_descriptors m, pairwise_descriptors m, filter_descriptors_sublist m, ?_⟩
  intro d hd
  have hdescriptor := eq_descriptor_of_mem m hd
  refine ⟨?_, ?_, congrArg Descriptor.name hdescriptor, congrArg Descriptor.layout hdescriptor⟩
  · rw [← decorationValue?_eq]
    exact congrArg Descriptor.set hdescriptor
  · rw [← decorationValue?_eq]
    exact congrArg Descriptor.binding hdescriptor

/-- Three uniform variables: one that is decorated twice, one with the same numbers as its later
decorations, and one without any, declared again with another class. -/
theorem descriptors_sorted_stably_with_ties :
    let words := (Assembly.ofStatements
      [.decorate 7 34 [3], .decorate 7 33 [9], .decorate 8 34 [0], .decorate 8 33 [1],
        .typeFloat 2 32, .typePointer 6 2 2, .moduleVariable 6 7 2, .moduleVariable 6 8 0,
        .moduleVariable 6 9 2, .moduleVariable 6 9 1, .moduleVariable 6 7 2,
        .decorate 7 34 [0], .decorate 7 33 [1, 4]]).words
    ∃ m, parse .core {} words = .ok m ∧ m.uniformVariables.toList = [7, 8, 9] ∧
      (m.descriptors.map (·.variableId)).Perm [7, 8, 9] ∧
      m.descriptors.Pairwise Descriptor.NoLater ∧
      ((m.descriptors.filter fun d => d.set == some 0 && d.binding == some 1).map
        (·.variableId)).Sublist [7, 8, 9] := by
  intro words
  have hok : (parse .core {} words).isOk = true := by decide +kernel
  obtain ⟨m, hparsed⟩ := exists_of_isOk hok
  obtain ⟨hdeclared, -, hperm, hpairwise, hties, -⟩ := descriptors_sorted_stably hparsed
  have huniform : ((firsts (((recognised .core words).map (·.declaration .core)).filterMap
      Declaration.moduleVariable?)).filter (·.2.storage.isUniform)).map (·.1) = [7, 8, 9] := by
    decide +kernel
  rw [huniform] at hdeclared
  have hequal := hties (some 0) (some 1)
  rw [hdeclared] at hperm hequal
  exact ⟨m, hparsed, hdeclared, hperm, hpairwise, hequal⟩

end ShaderModule

end ShaderReflection
