import Mathlib.Algebra.BigOperators.Group.List.Lemmas
import Mathlib.Algebra.GroupWithZero.Nat
import Mathlib.Algebra.Order.BigOperators.Group.List
import Mathlib.Algebra.Order.Group.Nat
import ShaderReflection.Descriptor
import ShaderReflection.Proofs.Table

/-!
Counting descriptors by kind. The kinds that occur are the ones with a counter, and a counter shows
how many descriptors of its kind there are, of which its 32 bits keep what they can hold.
-/

namespace ShaderReflection

theorem PoolSizes.getElem?_add (sizes : PoolSizes) (added kind : DescriptorKind) :
    (sizes.add added)[kind]? =
      if added = kind then some (sizes[kind]?.getD 0 + 1) else sizes[kind]? :=
  getElem?_alter_entry sizes added kind _

namespace Descriptor

variable {descriptors : List Descriptor} {kind : DescriptorKind}

/-- Counting from any counters on raises each by the number of the descriptors of its kind. -/
theorem getElem?_foldl_add (sizes : PoolSizes) (descriptors : List Descriptor)
    (kind : DescriptorKind) :
    (descriptors.foldl (fun sizes descriptor => sizes.add descriptor.kind) sizes)[kind]? =
      if descriptors.countP (·.kind == kind) = 0 then sizes[kind]?
      else some (sizes[kind]?.getD 0 + UInt32.ofNat (descriptors.countP (·.kind == kind))) := by
  -- The first descriptor changes the counters that the rest is counted from.
  induction descriptors generalizing sizes with
  | nil => rfl
  | cons descriptor rest ih =>
      rw [List.foldl_cons, ih, PoolSizes.getElem?_add, List.countP_cons]
      by_cases hkind : descriptor.kind = kind
      · rw [if_pos hkind, if_pos (beq_iff_eq.mpr hkind), if_neg (Nat.succ_ne_zero _),
          Option.getD_some, UInt32.ofNat_add, UInt32.add_comm (UInt32.ofNat _), ← UInt32.add_assoc]
        split_ifs with hrest
        · rw [hrest]
          exact congrArg some (UInt32.add_zero _).symm
        · rfl
      · rw [if_neg hkind, if_neg (mt beq_iff_eq.mp hkind), Nat.add_zero]

theorem getElem?_poolSizes (descriptors : List Descriptor) (kind : DescriptorKind) :
    (poolSizes descriptors)[kind]? =
      if descriptors.countP (·.kind == kind) = 0 then none
      else some (UInt32.ofNat (descriptors.countP (·.kind == kind))) := by
  rw [poolSizes, getElem?_foldl_add, Std.ExtTreeMap.getElem?_empty, Option.getD_none,
    UInt32.zero_add]

theorem toNat_of_getElem?_poolSizes {count : Word}
    (hcount : (poolSizes descriptors)[kind]? = some count) :
    count.toNat = descriptors.countP (·.kind == kind) % UInt32.size := by
  rw [getElem?_poolSizes] at hcount
  split_ifs at hcount
  rw [← Option.some.inj hcount]
  exact UInt32.toNat_ofNat'

/-- A counter is exact unless there are too many descriptors for its 32 bits. -/
theorem count_exact_iff {count : Word} (hcount : (poolSizes descriptors)[kind]? = some count) :
    count.toNat = descriptors.countP (·.kind == kind) ↔
      descriptors.countP (·.kind == kind) < UInt32.size := by
  rw [toNat_of_getElem?_poolSizes hcount]
  exact Nat.mod_eq_iff_lt (by decide)

end Descriptor

end ShaderReflection
