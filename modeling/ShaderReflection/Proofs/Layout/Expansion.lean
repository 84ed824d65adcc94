import Mathlib.Algebra.GroupWithZero.Nat
import Mathlib.Data.List.Basic
import Mathlib.Data.List.Flatten
import Mathlib.Data.Nat.Init
import ShaderReflection.Layout.Resolve

/-!
The tree that a type expands to. Its nodes are the types that are reached through bases and
members, once for each use, so a type that contains itself expands to an endless tree. The size of
a node is a natural number, with no bound.
-/

namespace ShaderReflection

/-- A vector, array or matrix: `count` elements of a base type. -/
structure Repetition where
  shape : Layout.Shape
  name : String
  base : Ident
  count : Word

namespace ShaderModule

variable (m : ShaderModule)

/-- The repetition that a vector, array or matrix stands for, with the length of an array looked
up. -/
def repetition? (id : Ident) : Option Repetition :=
  match m.kind? id with
  | some (.vector base count) => some ⟨.vector, "vector", base, count⟩
  | some (.array base length) => some ⟨.array, "array", base, m.arrayLength length⟩
  | some (.matrix base count) => some ⟨.matrix, "matrix", base, count⟩
  | _ => none

/-- What a type is made of: the base of a vector, array, matrix or sampled image, or the members of
a struct. -/
def parts (id : Ident) : List Ident :=
  match m.kind? id with
  | some (.vector base _) | some (.array base _) | some (.matrix base _)
  | some (.sampledImage base) => [base]
  | some (.struct members) => members
  | _ => []

/-- The nodes at a depth of the tree, each as often as it occurs. -/
def level : Nat → Ident → List Ident
  | 0, id => [id]
  | depth + 1, id => (m.parts id).flatMap (level depth)

/-- The nodes above a depth of the tree, every node before those below it. -/
def nodes : Nat → Ident → List Ident
  | 0, _ => []
  | depth + 1, id => id :: (m.parts id).flatMap (nodes depth)

/-- The name of the member at a place of a struct, empty if it has none. -/
def memberLabel (id : Ident) (place : Nat) : String :=
  (m.memberName? id place.toUInt32).getD ""

/-- The names of `count` members of a struct, the first at place `start`. -/
def labels (id : Ident) (start count : Nat) : List String :=
  (List.range' start count).map (m.memberLabel id)

/-- The bytes of all member names of a struct. -/
def labelBytes (id : Ident) : Nat :=
  match m.kind? id with
  | some (.struct members) => ((m.labels id 0 members.length).map (·.utf8ByteSize)).sum
  | _ => 0

/-- The size that an image of a dimensionality counts. -/
def imageSize : Dim → Nat
  | .line | .subpassData => 1
  | .plane => 2
  | .volume => 3
  | .cube => 6
  | .rectangle | .buffer | .other _ => 0

/-- The size of a type that is not made of others. -/
def leafSize? : Option TypeKind → Option Nat
  | none | some .void | some .sampler => some 0
  | some .bool | some (.int ..) | some (.float ..) => some 4
  | some (.image type) => some (imageSize type.dim)
  | _ => none

/-- The exact size of a type. A pointer has none, and neither has a type that contains itself. -/
inductive HasSize : Ident → Nat → Prop
  | leaf {id size} : leafSize? (m.kind? id) = some size → HasSize id size
  | repeated {id repetition size} :
      m.repetition? id = some repetition → HasSize repetition.base size →
        HasSize id (size * repetition.count.toNat)
  | sampledImage {id base size} :
      m.kind? id = some (.sampledImage base) → HasSize base size → HasSize id size
  | struct {id members} (sizeOf : Ident → Nat) :
      m.kind? id = some (.struct members) → (∀ part ∈ members, HasSize part (sizeOf part)) →
        HasSize id (members.map sizeOf).sum

section Parts

variable {m} {id : Ident}

theorem parts_of_leaf {size : Nat} (hleaf : leafSize? (m.kind? id) = some size) :
    m.parts id = [] := by
  unfold leafSize? at hleaf
  unfold parts
  split at hleaf <;> simp_all

theorem parts_of_repetition {repetition : Repetition}
    (hrepetition : m.repetition? id = some repetition) : m.parts id = [repetition.base] := by
  unfold repetition? at hrepetition
  unfold parts
  split at hrepetition <;> simp_all <;> rw [← hrepetition]

theorem kind_of_repetition {repetition : Repetition}
    (hrepetition : m.repetition? id = some repetition) :
    (∃ base count, m.kind? id = some (.vector base count) ∧
        repetition = ⟨.vector, "vector", base, count⟩) ∨
      (∃ base length, m.kind? id = some (.array base length) ∧
        repetition = ⟨.array, "array", base, m.arrayLength length⟩) ∨
      ∃ base count, m.kind? id = some (.matrix base count) ∧
        repetition = ⟨.matrix, "matrix", base, count⟩ := by
  unfold repetition? at hrepetition
  split at hrepetition <;> cases hrepetition <;> simp_all

theorem parts_of_sampledImage {base : Ident} (hkind : m.kind? id = some (.sampledImage base)) :
    m.parts id = [base] := by
  simp [parts, hkind]

theorem parts_of_struct {members : List Ident} (hkind : m.kind? id = some (.struct members)) :
    m.parts id = members := by
  simp [parts, hkind]

theorem labelBytes_of_not_struct (hkind : ∀ members, m.kind? id ≠ some (.struct members)) :
    m.labelBytes id = 0 := by
  unfold labelBytes
  split
  · next members hstruct => exact absurd hstruct (hkind members)
  · rfl

theorem labelBytes_of_struct {members : List Ident} (hkind : m.kind? id = some (.struct members)) :
    m.labelBytes id = ((m.labels id 0 members.length).map (·.utf8ByteSize)).sum := by
  simp [labelBytes, hkind]

end Parts

theorem labels_succ (m : ShaderModule) (id : Ident) (start count : Nat) :
    m.labels id start (count + 1) = m.memberLabel id start :: m.labels id (start + 1) count := by
  rw [labels, labels, List.range'_succ, List.map_cons]

section Levels

variable {m}

theorem mem_level_succ {depth : Nat} {id node : Ident} :
    node ∈ m.level (depth + 1) id ↔ ∃ part ∈ m.parts id, node ∈ m.level depth part := by
  rw [level, List.mem_flatMap]

theorem level_add (depth further : Nat) (id : Ident) :
    m.level (depth + further) id = (m.level depth id).flatMap (m.level further) := by
  induction depth generalizing id with
  | zero => simp [level]
  | succ depth ih =>
      rw [Nat.add_right_comm, level, level, List.flatMap_assoc]
      exact List.flatMap_congr fun part _ => ih part

theorem level_eq_nil_of_le {depth further : Nat} {id : Ident} (hle : depth ≤ further)
    (hshallow : m.level depth id = []) : m.level further id = [] := by
  obtain ⟨rest, rfl⟩ := Nat.exists_eq_add_of_le hle
  rw [level_add, hshallow, List.flatMap_nil]

theorem level_succ_eq_nil_iff {depth : Nat} {id : Ident} :
    m.level (depth + 1) id = [] ↔ ∀ part ∈ m.parts id, m.level depth part = [] := by
  rw [level, List.flatMap_eq_nil_iff]

/-- A type that is some levels below itself is found at every depth of its own tree that these
levels divide. -/
theorem mem_level_mul {period : Nat} {id : Ident} (hcycle : id ∈ m.level period id) (times : Nat) :
    id ∈ m.level (times * period) id := by
  induction times with
  | zero => simp [level]
  | succ times ih =>
      rw [Nat.succ_mul, level_add, List.mem_flatMap]
      exact ⟨id, ih, hcycle⟩

theorem nodes_sublist_succ (depth : Nat) (id : Ident) :
    (m.nodes depth id).Sublist (m.nodes (depth + 1) id) := by
  induction depth generalizing id with
  | zero => exact List.nil_sublist _
  | succ depth ih => exact (List.Sublist.flatMap_right _ fun part _ => ih part).cons_cons id

theorem nodes_sublist_of_le {depth further : Nat} (hle : depth ≤ further) (id : Ident) :
    (m.nodes depth id).Sublist (m.nodes further id) := by
  induction further, hle using Nat.le_induction with
  | base => exact List.Sublist.refl _
  | succ further _ ih => exact ih.trans (nodes_sublist_succ further id)

/-- Below a depth without nodes, there are no further nodes. -/
theorem nodes_succ_of_level_eq_nil {depth : Nat} {id : Ident} (hshallow : m.level depth id = []) :
    m.nodes (depth + 1) id = m.nodes depth id := by
  induction depth generalizing id with
  | zero => simp [level] at hshallow
  | succ depth ih =>
      rw [level_succ_eq_nil_iff] at hshallow
      rw [nodes, nodes]
      congr 1
      exact List.flatMap_congr fun part hpart => ih (hshallow part hpart)

theorem nodes_eq_of_le {depth further : Nat} {id : Ident} (hle : depth ≤ further)
    (hshallow : m.level depth id = []) : m.nodes further id = m.nodes depth id := by
  induction further, hle using Nat.le_induction with
  | base => rfl
  | succ further hle ih =>
      rw [nodes_succ_of_level_eq_nil (level_eq_nil_of_le hle hshallow), ih]

theorem nodes_sublist_of_level_eq_nil {limit : Nat} {id : Ident} (hshallow : m.level limit id = [])
    (depth : Nat) : (m.nodes depth id).Sublist (m.nodes limit id) := by
  rcases Nat.le_total depth limit with hle | hle
  · exact nodes_sublist_of_le hle id
  · rw [nodes_eq_of_le hle hshallow]

theorem nodes_sublist_of_part {depth : Nat} {id part : Ident} (hpart : part ∈ m.parts id) :
    (m.nodes depth part).Sublist (m.nodes (depth + 1) id) := by
  have hbelow : (m.nodes depth part).Sublist ((m.parts id).flatMap (m.nodes depth)) := by
    rw [List.flatMap_def]
    exact List.sublist_flatten_of_mem (List.mem_map_of_mem hpart)
  exact hbelow.trans (List.sublist_cons_self id _)

end Levels

end ShaderModule

end ShaderReflection
