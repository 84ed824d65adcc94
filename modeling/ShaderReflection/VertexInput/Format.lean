import ShaderReflection.Word

/-!
The formats of vertex attributes: one to four components of 32 bits.
-/

namespace ShaderReflection

/-- What the components of a vertex attribute are. -/
inductive VertexFormat.Component where
  | float
  | int
  | uint
  deriving DecidableEq, Repr

/-- The format of a vertex attribute: a kind of component and how many of them there are. -/
structure VertexFormat where
  component : VertexFormat.Component
  channels : Nat
  channels_pos : 1 ≤ channels
  channels_le : channels ≤ 4
  deriving DecidableEq

namespace VertexFormat

/-- The kind of component that a scalar type's name denotes. -/
def Component.ofName? (name : String) : Option Component :=
  if name = "Float32" then some float
  else if name = "Int32" then some int
  else if name = "UInt32" then some uint
  else none

/-- The end of a format's name that tells the kind of its components. -/
def Component.suffix : Component → String
  | float => "SFLOAT"
  | int => "SINT"
  | uint => "UINT"

/-- The format for elements of a base type. -/
def ofBase? (baseType : String) (count : Word) : Option VertexFormat :=
  match Component.ofName? baseType with
  | none => none
  | some component =>
    if channels : 1 ≤ count.toNat ∧ count.toNat ≤ 4 then
      some ⟨component, count.toNat, channels.1, channels.2⟩
    else none

/-- The names of the first channels in a format's name. -/
def channelNames (channels : Nat) : String :=
  String.join ((["R32", "G32", "B32", "A32"]).take channels)

/-- The format's name in the Vulkan API. -/
def vulkanName (format : VertexFormat) : String :=
  "VK_FORMAT_" ++ channelNames format.channels ++ "_" ++ format.component.suffix

end VertexFormat

end ShaderReflection
