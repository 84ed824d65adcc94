import ShaderReflection.Layout.Resolve
import Std.Data.ExtTreeMap

/-!
Descriptors: the resources that a pipeline binds, ordered by descriptor set and binding.
-/

namespace ShaderReflection

/-- What a resource is bound as. Summaries list the kinds in this order. -/
inductive DescriptorKind where
  | uniformBuffer
  | combinedImageSampler
  | inputAttachment
  | sampledImage
  | sampler
  | unknown
  deriving DecidableEq, Ord, Repr

namespace DescriptorKind

instance : Std.TransOrd DescriptorKind :=
  inferInstanceAs (Std.TransCmp (compareOn DescriptorKind.ctorIdx))

instance : Std.LawfulEqOrd DescriptorKind where
  eq_of_compare {a b} := by cases a <;> cases b <;> decide

/-- The kind for resources whose layout has a base type. -/
def ofBaseType (baseType : String) : DescriptorKind :=
  if baseType = "struct" then uniformBuffer
  else if baseType = "sampledimage" then combinedImageSampler
  else if baseType = "subpassInput" then inputAttachment
  else if baseType = "image" then sampledImage
  else if baseType = "sampler" then sampler
  else unknown

/-- The kind's name in the Vulkan API. -/
def vulkanName : DescriptorKind → String
  | uniformBuffer => "VK_DESCRIPTOR_TYPE_UNIFORM_BUFFER"
  | combinedImageSampler => "VK_DESCRIPTOR_TYPE_COMBINED_IMAGE_SAMPLER"
  | inputAttachment => "VK_DESCRIPTOR_TYPE_INPUT_ATTACHMENT"
  | sampledImage => "VK_DESCRIPTOR_TYPE_SAMPLED_IMAGE"
  | sampler => "VK_DESCRIPTOR_TYPE_SAMPLER"
  | unknown => "<unknown descriptor type>"

end DescriptorKind

/-- Counters of descriptors by kind, for the kinds that occur. -/
abbrev PoolSizes := Std.ExtTreeMap DescriptorKind Word

/-- Counts one more descriptor of a kind, the first of which has no counter yet. A counter has 32
bits and wraps around. -/
def PoolSizes.add (sizes : PoolSizes) (kind : DescriptorKind) : PoolSizes :=
  sizes.alter kind fun count => some (count.getD 0 + 1)

/-- A resource that a pipeline binds. -/
structure Descriptor where
  set : Option Word
  binding : Option Word
  name : Option String
  variableId : Ident
  layout : Except LayoutError Layout

namespace Descriptor

/-- What the resource is bound as. Nothing is known without a layout. -/
def kind (descriptor : Descriptor) : DescriptorKind :=
  match descriptor.layout with
  | .ok layout => .ofBaseType layout.baseType
  | .error _ => .unknown

/-- The rank of a set or binding number. A missing one comes before all others. -/
def rank : Option Word → Nat
  | none => 0
  | some number => number.toNat + 1

/-- Whether a descriptor may come before another: the set decides, then the binding. -/
def inOrder (a b : Descriptor) : Bool :=
  rank a.set < rank b.set || (rank a.set == rank b.set && rank a.binding ≤ rank b.binding)

/-- Counts descriptors by kind. -/
def poolSizes (descriptors : List Descriptor) : PoolSizes :=
  descriptors.foldl (fun sizes descriptor => sizes.add descriptor.kind) ∅

end Descriptor

namespace ShaderModule

variable (m : ShaderModule)

/-- The descriptor of a uniform variable. -/
def descriptor (id : Ident) : Descriptor where
  set := m.decorationValue? id setDecoration
  binding := m.decorationValue? id bindingDecoration
  name := m.name? id
  variableId := id
  layout := m.variableLayout id

/-- The descriptors of all uniform variables by set and binding. Those with the same numbers keep
the order in which their variables are declared. -/
def descriptors : List Descriptor :=
  (m.uniformVariables.toList.map m.descriptor).mergeSort Descriptor.inOrder

end ShaderModule

end ShaderReflection
