import ShaderReflection.Assembly
import ShaderReflection.Interface
import ShaderReflection.NameTable.Core
import ShaderReflection.Proofs.Fallible
import ShaderReflection.Proofs.Module.Tables
import ShaderReflection.ShaderModule.Parse

/-!
The two views of an entry point. One lists its inputs and outputs as the interface has them, the
other keeps one input for each location, the last one that the list has there.
-/

namespace ShaderReflection.ShaderModule

variable (m : ShaderModule)

/-- What the table of inputs holds for an input with a location. -/
def inputAt (location : Word) (input : InterfaceVariable) : LocatedInput where
  location
  name := input.name
  variableId := input.id
  layout := m.variableLayout input.id

/-- The interface ids that are variables of a storage class, as often as they are listed. -/
def listed (storage : StorageClass) (entry : EntryPoint) : List Ident :=
  entry.interface.filter fun id => (m.variableAt? id).map (·.storage) = some storage

/-- How the two views of an entry point are related to it and to each other. -/
structure ViewsAgree (entry : EntryPoint) (interface : EntryInterface) (layout : EntryLayout) :
    Prop where
  names : interface.name = entry.name ∧ layout.name = entry.name
  models : interface.model = entry.model ∧ layout.model = entry.model
  inputs : interface.inputs.map (·.id) = m.listed .input entry
  outputs : interface.outputs.map (·.id) = m.listed .output entry
  described : ∀ described ∈ interface.inputs ++ interface.outputs,
    described.name = m.name? described.id ∧ described.location = m.location? described.id
  located : ∀ location, location ∈ layout.inputs ↔
    ∃ input ∈ interface.inputs, input.location = some location
  last : ∀ location, layout.inputs[location]? =
    ((interface.inputs.filter (·.location = some location)).getLast?).map (m.inputAt location)

section Lists

variable (names : NameTable) (entry : EntryPoint)

theorem hasClass_eq (storage : StorageClass) (id : Ident) :
    m.hasClass storage id = decide ((m.variableAt? id).map (·.storage) = some storage) := by
  unfold hasClass
  cases m.variableAt? id with
  | none => rfl
  | some declared =>
      simp only [Option.any_some, Option.map_some, Option.some.injEq]
      rfl

theorem filter_hasClass (storage : StorageClass) :
    entry.interface.filter (m.hasClass storage) = m.listed storage entry := by
  apply List.filter_congr
  intro id _
  exact m.hasClass_eq storage id

theorem map_id_interfaceVariable (ids : List Ident) :
    (ids.map (m.interfaceVariable names)).map (·.id) = ids := by
  rw [List.map_map]
  exact List.map_id ids

/-- An id contributes to the table what its place in the list of inputs says, if it is in that list
and has a location. -/
theorem locatedInput?_eq (id : Ident) :
    m.locatedInput? id =
      if m.hasClass .input id then
        (m.interfaceVariable names id).location.map fun location =>
          m.inputAt location (m.interfaceVariable names id)
      else none := rfl

theorem allUnder_locatedInput? (location : Word) (ids : List Ident) :
    allUnder location ((ids.filterMap m.locatedInput?).map fun input => (input.location, input)) =
      (((ids.filter (m.hasClass .input)).map (m.interfaceVariable names)).filter
        (·.location = some location)).map (m.inputAt location) := by
  induction ids with
  | nil => rfl
  | cons id rest ih =>
      rw [filterMap_cons_eq, List.map_append, allUnder_append, ih, locatedInput?_eq m names]
      cases hclass : m.hasClass .input id with
      | false =>
          rw [List.filter_cons_of_neg (by simp [hclass])]
          rfl
      | true =>
          rw [List.filter_cons_of_pos hclass, List.map_cons]
          cases hlocation : (m.interfaceVariable names id).location with
          | none =>
              rw [List.filter_cons_of_neg (by simp [hlocation])]
              rfl
          | some other =>
              simp only [↓reduceIte, Option.map_some, Option.toList_some, List.map_singleton]
              rw [allUnder_singleton, List.filter_cons, hlocation]
              by_cases hsame : other = location
              · subst hsame
                simp [inputAt]
              · simp [hsame, inputAt]

/-- The table of inputs holds for a location the last input that the list has there. -/
theorem getElem?_entryLayout_inputs (location : Word) :
    (m.entryLayout entry).inputs[location]? =
      (((m.entryInterface names entry).inputs.filter
        (·.location = some location)).getLast?).map (m.inputAt location) := by
  have hread := foldl_lastUnder
    (fun (inputs : WordMap LocatedInput) input => inputs.insert input.location input)
    (fun input => some (input.location, input)) (fun inputs location => inputs[location]?)
    (by
      intro inputs input key
      rw [Option.toList_some, lastUnder_singleton, getElem?_insert_entry]
      split_ifs <;> rfl)
    ∅ (entry.interface.filterMap m.locatedInput?) location
  rw [Std.ExtTreeMap.getElem?_empty, Option.or_none, List.filterMap_eq_map'] at hread
  rw [← List.getLast?_map]
  exact hread.trans ((lastUnder_eq_getLast? location _).trans
    (congrArg List.getLast? (m.allUnder_locatedInput? names location entry.interface)))

/-- Which id holds a location depends on nothing but the interface and its classes and locations. -/
theorem getElem?_entryLayout_inputs_of_listed (location : Word) :
    (m.entryLayout entry).inputs[location]? =
      ((entry.interface.filter fun id =>
        m.location? id = some location && m.hasClass .input id).getLast?).map fun id =>
          ⟨location, m.name? id, id, m.variableLayout id⟩ := by
  rw [m.getElem?_entryLayout_inputs .core, entryInterface, List.filter_map, List.getLast?_map,
    Option.map_map, List.filter_filter]
  rfl

theorem mem_entryLayout_inputs_iff (location : Word) :
    location ∈ (m.entryLayout entry).inputs ↔
      ∃ input ∈ (m.entryInterface names entry).inputs, input.location = some location := by
  rw [Std.ExtTreeMap.mem_iff_isSome_getElem?, m.getElem?_entryLayout_inputs names,
    Option.isSome_map, List.getLast?_isSome]
  simp [List.filter_eq_nil_iff]

theorem viewsAgree_of_entryPoint :
    m.ViewsAgree entry (m.entryInterface names entry) (m.entryLayout entry) where
  names := ⟨rfl, rfl⟩
  models := ⟨rfl, rfl⟩
  inputs := by
    rw [← filter_hasClass]
    exact m.map_id_interfaceVariable names _
  outputs := by
    rw [← filter_hasClass]
    exact m.map_id_interfaceVariable names _
  described := by
    intro described hdescribed
    rw [entryInterface, ← List.map_append] at hdescribed
    obtain ⟨id, -, rfl⟩ := List.mem_map.mp hdescribed
    exact ⟨rfl, rfl⟩
  located := m.mem_entryLayout_inputs_iff names entry
  last := m.getElem?_entryLayout_inputs names entry

end Lists

/-- An input stands at the location of its variable, and holds the data of that variable. -/
theorem input_eq_of_entryLayouts {layout : EntryLayout} (hlayout : layout ∈ m.entryLayouts)
    {location : Word} {input : LocatedInput} (hinput : layout.inputs[location]? = some input) :
    m.location? input.variableId = some location ∧
      input = ⟨location, m.name? input.variableId, input.variableId,
        m.variableLayout input.variableId⟩ := by
  obtain ⟨entry, -, rfl⟩ := List.mem_map.mp hlayout
  rw [getElem?_entryLayout_inputs_of_listed] at hinput
  obtain ⟨listed, hlast, rfl⟩ := Option.map_eq_some_iff.mp hinput
  have hlisted := (List.mem_filter.mp (List.mem_of_getLast? hlast)).2
  rw [Bool.and_eq_true, decide_eq_true_iff] at hlisted
  exact ⟨hlisted.1, rfl⟩

/-- Both views have one element for each entry point, in the order of the declarations, and each two
elements for the same entry point agree. -/
theorem entry_views_agree (names : NameTable) :
    (m.entryInterfaces names).length = m.entryPoints.size ∧
      m.entryLayouts.length = m.entryPoints.size ∧
      ∀ (place : Nat) (entry : EntryPoint), m.entryPoints[place]? = some entry →
        ∃ interface layout, (m.entryInterfaces names)[place]? = some interface ∧
          m.entryLayouts[place]? = some layout ∧ m.ViewsAgree entry interface layout := by
  refine ⟨?_, ?_, ?_⟩
  · rw [entryInterfaces, List.length_map, Array.length_toList]
  · rw [entryLayouts, List.length_map, Array.length_toList]
  · intro place entry hentry
    rw [← Array.getElem?_toList] at hentry
    refine ⟨m.entryInterface names entry, m.entryLayout entry, ?_, ?_, ?_⟩
    · rw [entryInterfaces, List.getElem?_map, hentry, Option.map_some]
    · rw [entryLayouts, List.getElem?_map, hentry, Option.map_some]
    · exact m.viewsAgree_of_entryPoint names entry

/-- An entry point that lists an input twice, an id that is no variable, an output, an input without
a location, and two inputs with one location, the later of which has no layout. -/
theorem entry_views_agree_shared_location :
    let words := (Assembly.ofStatements
      [.entryPoint 0 1 "main" [20, 20, 9, 23, 24, 25], .decorate 20 30 [2], .decorate 25 30 [2],
        .decorate 23 30 [0], .typeFloat 2 32, .typePointer 3 1 2, .typePointer 4 3 2,
        .moduleVariable 3 20 1, .moduleVariable 4 23 3, .moduleVariable 3 24 1,
        .moduleVariable 2 25 1]).words
    ∃ m entry interface layout, parse .core {} words = .ok m ∧
      m.entryPoints[0]? = some entry ∧ (m.entryInterfaces .core)[0]? = some interface ∧
      m.entryLayouts[0]? = some layout ∧ m.listed .input entry = [20, 20, 24, 25] ∧
      m.ViewsAgree entry interface layout := by
  intro words
  have hok : (parse .core {} words).isOk = true := by decide +kernel
  have hfacts : (parse .core {} words).toOption.bind (fun m =>
      m.entryPoints[0]?.map (m.listed .input)) = some [20, 20, 24, 25] := by decide +kernel
  obtain ⟨m, hparsed⟩ := exists_of_isOk hok
  rw [hparsed] at hfacts
  obtain ⟨entry, hentry, hlisted⟩ := Option.map_eq_some_iff.mp hfacts
  obtain ⟨-, -, hviews⟩ := m.entry_views_agree .core
  obtain ⟨interface, layout, hinterface, hlayout, hagree⟩ := hviews 0 entry hentry
  exact ⟨m, entry, interface, layout, hparsed, hentry, hinterface, hlayout, hlisted, hagree⟩

end ShaderReflection.ShaderModule
