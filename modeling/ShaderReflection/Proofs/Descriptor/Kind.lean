import Mathlib.Tactic.SplitIfs
import ShaderReflection.Proofs.Descriptor
import ShaderReflection.Proofs.Descriptor.PoolSizes
import ShaderReflection.Proofs.Layout.Composition

/-!
What resources are bound as. The kind is looked up by the name of an element type, and only structs,
samplers and sampled images without an image have names that count there, so the shape of the type
that a variable points to decides. Summaries count the kinds that occur.
-/

namespace ShaderReflection

namespace ShaderModule

variable (m : ShaderModule)

/-- Whether a variable is declared with a pointer to a type. -/
def PointsTo (id target : Ident) : Prop :=
  ∃ declared storage, m.variableAt? id = some declared ∧
    m.kind? declared.type = some (.pointer storage target)

end ShaderModule

namespace DescriptorKind

end DescriptorKind

namespace ShaderModule

variable {m : ShaderModule} {id : Ident} {layout : Layout}

theorem PointsTo.unique {target other : Ident} (h : m.PointsTo id target)
    (hother : m.PointsTo id other) : target = other := by
  obtain ⟨declared, _, hdeclared, hkind⟩ := h
  obtain ⟨_, _, hdeclared', hkind'⟩ := hother
  obtain rfl := Option.some.inj (hdeclared.symm.trans hdeclared')
  cases hkind.symm.trans hkind'
  rfl

end ShaderModule

end ShaderReflection
