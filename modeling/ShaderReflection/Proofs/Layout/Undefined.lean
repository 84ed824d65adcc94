import ShaderReflection.Assembly
import ShaderReflection.NameTable.Core
import ShaderReflection.Proofs.Layout.Composition
import ShaderReflection.Proofs.Layout.Success
import ShaderReflection.ShaderModule.Parse

/-!
What becomes of types without a definition. Only the direct members of a struct are asked to be
defined, so a type that is wrapped around an undefined one is laid out without any size, at the
root of a question and below a struct alike.
-/

namespace ShaderReflection.ShaderModule

/-- Whether a type is the root of a question that was answered: about the type itself, or about a
variable that points to it. -/
def Answered (m : ShaderModule) (id : Ident) : Prop :=
  (∃ layout, m.typeLayout id = .ok layout) ∨
    ∃ owner layout, m.pointee owner = .ok id ∧ m.variableLayout owner = .ok layout

/-- A type that is undefined, or that has such a type for its base. -/
inductive Hollow (m : ShaderModule) : Ident → Prop
  | undefined {id} : m.kind? id = none → Hollow m id
  | repeated {id repetition} :
      m.repetition? id = some repetition → Hollow m repetition.base → Hollow m id
  | sampledImage {id base} : m.kind? id = some (.sampledImage base) → Hollow m base → Hollow m id

variable {m : ShaderModule} {id node : Ident}

theorem Hollow.hasSize_zero (h : m.Hollow id) : m.HasSize id 0 := by
  induction h with
  | undefined hkind =>
      apply HasSize.leaf
      rw [hkind]
      rfl
  | repeated hrepetition _ ih =>
      have hsize := HasSize.repeated hrepetition ih
      rwa [Nat.zero_mul] at hsize
  | sampledImage hkind _ ih => exact .sampledImage hkind ih

theorem Answered.typeLayout_ok (h : m.Answered id) : ∃ layout, m.typeLayout id = .ok layout := by
  rcases h with h | ⟨owner, layout, hpointee, h⟩
  · exact h
  · obtain ⟨pointee, hother, hlayout, hlimits⟩ := variableLayout_eq_ok_iff.mp h
    obtain rfl := Except.ok.inj (hpointee.symm.trans hother)
    exact ⟨layout, typeLayout_eq_ok_iff.mpr ⟨hlayout, hlimits.succ⟩⟩

/-- Every node of a tree has an answer of its own when the root has one. -/
theorem typeLayout_of_inTree {layout : Layout} (h : m.typeLayout id = .ok layout)
    (hnode : m.InTree id node) : ∃ layout, m.typeLayout node = .ok layout := by
  obtain ⟨depth, hnode⟩ := hnode
  induction depth generalizing id layout with
  | zero =>
      obtain rfl := List.mem_singleton.mp hnode
      exact ⟨layout, h⟩
  | succ depth ih =>
      obtain ⟨part, hpart, hnode⟩ := mem_level_succ.mp hnode
      obtain ⟨hlayout, -⟩ := typeLayout_eq_ok_iff.mp h
      obtain ⟨inner, hinner⟩ := hlayout.of_part hpart
      exact ih (typeLayout_of_part h hpart hinner) hnode

theorem InTree.exists_parent (hnode : m.InTree id node) :
    node = id ∨ ∃ parent, m.InTree id parent ∧ node ∈ m.parts parent := by
  obtain ⟨depth, hnode⟩ := hnode
  cases depth with
  | zero => exact Or.inl (List.mem_singleton.mp hnode)
  | succ depth =>
      rw [level_add, List.mem_flatMap] at hnode
      obtain ⟨parent, hparent, hnode⟩ := hnode
      obtain ⟨part, hpart, hnode⟩ := mem_level_succ.mp hnode
      obtain rfl := List.mem_singleton.mp hnode
      exact Or.inr ⟨parent, ⟨depth, hparent⟩, hpart⟩

/-- An undefined part of a type that has a layout is its base. -/
theorem parts_eq_of_undefined {layout : Layout} (hlayout : m.HasLayout id layout)
    (hpart : node ∈ m.parts id) (hundefined : m.kind? node = none) :
    m.parts id = [node] ∧ ∀ members, m.kind? id ≠ some (.struct members) := by
  have hnotStruct : ∀ members, m.kind? id ≠ some (.struct members) := by
    intro members hkind
    rw [parts_of_struct hkind] at hpart
    exact (proper_of_hasLayout hlayout).defined members hkind node hpart hundefined
  refine ⟨?_, hnotStruct⟩
  rcases kind_cases (m := m) id with ⟨leaf, hleaf⟩ | ⟨repetition, hrepetition⟩ | ⟨base, hkind⟩ |
    ⟨members, hkind⟩ | ⟨storage, pointee, hkind⟩
  · rw [parts_of_leaf (leafSize_of_leafLayout hleaf)] at hpart
    cases hpart
  · rw [parts_of_repetition hrepetition] at hpart ⊢
    rw [List.mem_singleton.mp hpart]
  · rw [parts_of_sampledImage hkind] at hpart ⊢
    rw [List.mem_singleton.mp hpart]
  · exact absurd hkind (hnotStruct members)
  · exact absurd hlayout (not_hasLayout_pointer hkind)

/-- When a question is answered, all direct members of structs are defined. An undefined type in
the tree is the root or the base of a vector, array, matrix or sampled image, and it takes no room
there: whatever is made of it alone has size zero. -/
theorem undefined_types_take_no_room (hanswered : m.Answered id) :
    (∀ owner members, m.InTree id owner → m.kind? owner = some (.struct members) →
      ∀ member ∈ members, m.kind? member ≠ none) ∧
    (∀ node, m.InTree id node → m.kind? node = none →
      node = id ∨ ∃ owner, m.InTree id owner ∧ m.parts owner = [node] ∧
        ∀ members, m.kind? owner ≠ some (.struct members)) ∧
    ∀ node, m.InTree id node → m.Hollow node →
      ∃ layout, m.typeLayout node = .ok layout ∧ layout.size = 0 := by
  obtain ⟨layout, h⟩ := hanswered.typeLayout_ok
  have hlayouts : ∀ node, m.InTree id node → ∃ layout, m.HasLayout node layout := by
    intro node hnode
    obtain ⟨inner, hinner⟩ := typeLayout_of_inTree h hnode
    exact ⟨inner, (typeLayout_eq_ok_iff.mp hinner).1⟩
  refine ⟨?_, ?_, ?_⟩
  · intro owner members howner hkind
    obtain ⟨inner, hinner⟩ := hlayouts owner howner
    exact (proper_of_hasLayout hinner).defined members hkind
  · intro node hnode hundefined
    rcases hnode.exists_parent with hroot | ⟨owner, howner, hpart⟩
    · exact Or.inl hroot
    · obtain ⟨inner, hinner⟩ := hlayouts owner howner
      exact Or.inr ⟨owner, howner, parts_eq_of_undefined hinner hpart hundefined⟩
  · intro node hnode hhollow
    obtain ⟨inner, hinner⟩ := typeLayout_of_inTree h hnode
    have hsize := hhollow.hasSize_zero.eq_of_hasLayout (typeLayout_eq_ok_iff.mp hinner).1
    exact ⟨inner, hinner, UInt32.toNat_inj.mp hsize⟩

/-- A struct of a float and of a vector whose component is undefined. The vector is asked for its
own sake, as a member and through a variable. -/
theorem undefined_types_take_no_room_hollow_member :
    let m := ofDeclarations ⟨magicNumber, 0x10000, 0, 16, 0⟩
      [.type (.ofKind 1 (.float 32)), .type (.ofKind 3 (.vector 9 4)),
        .type (.ofKind 2 (.struct [1, 3])), .type (.ofKind 4 (.pointer .uniform 2)),
        .moduleVariable ⟨5, 4, .uniform⟩]
    m.Answered 2 ∧ (∀ member ∈ [1, 3], m.kind? member ≠ none) ∧
      ∃ layout, m.typeLayout 3 = .ok layout ∧ layout.size = 0 := by
  intro m
  have hpointee : m.pointee 5 = .ok 2 := by decide +kernel
  have hok : (m.variableLayout 5).isOk = true := by decide +kernel
  have hstruct : m.kind? 2 = some (.struct [1, 3]) := by decide +kernel
  have hvector : m.kind? 3 = some (.vector 9 4) := by decide +kernel
  have hundefined : m.kind? 9 = none := by decide +kernel
  have hrepetition : m.repetition? 3 = some ⟨.vector, "vector", 9, 4⟩ := by
    rw [repetition?, hvector]
  have hpart : 3 ∈ m.parts 2 := by
    rw [parts_of_struct hstruct]
    decide
  obtain ⟨layout, hlayout⟩ := exists_of_isOk hok
  have hanswered : m.Answered 2 := Or.inr ⟨5, layout, hpointee, hlayout⟩
  obtain ⟨hdefined, -, hhollow⟩ := undefined_types_take_no_room hanswered
  exact ⟨hanswered, hdefined 2 [1, 3] (.self m 2) hstruct,
    hhollow 3 (.of_part hpart (.self m 3)) (.repeated hrepetition (.undefined hundefined))⟩

/-- An undefined type below a struct need not be noticed: a module that is read without complaint
has a struct of a float and of a vector of an undefined type, and the struct is given the size of
the float. -/
theorem undefined_type_below_struct_unnoticed :
    let words := (Assembly.ofStatements
      [.typeFloat 1 32, .typeVector 3 9 4, .typeStruct 2 [1, 3]]).words
    ∃ m layout, parse .core {} words = .ok m ∧ m.typeLayout 2 = .ok layout ∧
      layout.size = 4 ∧ m.kind? 2 = some (.struct [1, 3]) ∧ m.InTree 3 9 ∧ m.kind? 9 = none := by
  intro words
  have hok : (parse .core {} words).isOk = true := by decide +kernel
  have hfacts : (parse .core {} words).toOption.map (fun m =>
      (m.kind? 2, m.kind? 3, m.kind? 9, (m.typeLayout 2).toOption.map (·.size))) =
        some (some (.struct [1, 3]), some (.vector 9 4), none, some 4) := by decide +kernel
  obtain ⟨m, hparsed⟩ := exists_of_isOk hok
  rw [hparsed] at hfacts
  simp only [Except.toOption, Option.map_some, Option.some.injEq, Prod.mk.injEq] at hfacts
  obtain ⟨hstruct, hvector, hundefined, hsize⟩ := hfacts
  have hpart : 9 ∈ m.parts 3 := by
    rw [parts, hvector]
    exact List.mem_singleton_self 9
  cases hlayout : m.typeLayout 2 with
  | error error =>
      rw [hlayout] at hsize
      cases hsize
  | ok layout =>
      rw [hlayout] at hsize
      exact ⟨m, layout, hparsed, hlayout, Option.some.inj hsize, hstruct,
        .of_part hpart (.self m 9), hundefined⟩

end ShaderReflection.ShaderModule
