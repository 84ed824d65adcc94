import ShaderReflection.TypeKind

/-!
Layouts: how many bytes a type takes and what it is made of. Sizes are plain sums and products,
without alignment or padding.
-/

namespace ShaderReflection

/-- The shape of a layout. -/
inductive Layout.Shape where
  | scalar
  | vector
  | array
  | matrix
  | struct
  | image
  /-- An image whose dimensionality has no known size. -/
  | unknownImage
  | sampledImage
  | sampler
  /-- An id without a type definition. -/
  | unknown
  deriving DecidableEq, Repr

/-- The name of a shape. -/
def Layout.Shape.name : Layout.Shape → String
  | scalar => "Scalar"
  | vector => "Vector"
  | array => "Array"
  | matrix => "Matrix"
  | struct => "Struct"
  | image => "Image"
  | unknownImage => "UnknownImage"
  | sampledImage => "SampledImage"
  | sampler => "Sampler"
  | unknown => "Unknown"

/-- What the layout of an image says beyond its size. -/
structure ImageDetail where
  /-- The dimensionality's short name, followed by `Array` for an image with layers. -/
  suffix : String
  dim : Dim
  format : Word
  arrayed : Bool
  multisampled : Bool
  deriving DecidableEq, Repr

/-- A struct's member: its debug name, empty if it has none, its type, and its layout. -/
structure Member (α : Type) where
  name : String
  typeId : Ident
  kind : TypeKind
  layout : α

/-- The layout of a type. It is `baseCount` elements of `baseSize` bytes, and `baseType` names the
type of an element. -/
structure Layout where
  shape : Layout.Shape
  name : String
  size : Word
  baseSize : Word
  baseType : String
  baseCount : Word
  /-- The members of a struct, in the order they are declared. -/
  members : Option (List (Member Layout)) := none
  /-- Set for images and for sampled images that have an image below them. -/
  image : Option ImageDetail := none

namespace Layout

/-- The layout of an id without a type definition. -/
def undefined : Layout where
  shape := .unknown
  name := ""
  size := 0
  baseSize := 0
  baseType := ""
  baseCount := 0

/-- Whether a layout belongs to an id without a type definition. -/
def isUndefined (layout : Layout) : Bool := layout.shape == .unknown

/-- The layout of a type that is its own element. -/
def scalar (name : String) (size : Word) : Layout where
  shape := .scalar
  name
  size
  baseSize := size
  baseType := name
  baseCount := 1

/-- The layout of a struct with the given size and members. -/
def struct (size : Word) (members : List (Member Layout)) : Layout where
  shape := .struct
  name := "struct"
  size
  baseSize := size
  baseType := "struct"
  baseCount := 1
  members := some members

/-- The layout of a sampler, which takes no bytes. -/
def sampler : Layout where
  shape := .sampler
  name := "sampler"
  size := 0
  baseSize := 0
  baseType := "sampler"
  baseCount := 1

/-- The layout of an image from what its dimensionality decides: the sizes, the name of the element
type and a short name. -/
def ofDim (type : ImageType) (shape : Shape) (baseSize baseCount : Word) (baseType short : String) :
    Layout :=
  let suffix := if type.arrayed then short ++ "Array" else short
  { shape
    name := "image" ++ suffix
    size := baseSize * baseCount
    baseSize
    baseType
    baseCount
    image := some
      { suffix
        dim := type.dim
        format := type.format
        arrayed := type.arrayed
        multisampled := type.multisampled } }

/-- The layout of an image. Only dimensionality and layers matter: a plane counts two bytes, a
volume three, and a cube six faces of one byte. -/
def ofImage (type : ImageType) : Layout :=
  match type.dim with
  | .line => ofDim type .image 1 1 "image" "1D"
  | .plane => ofDim type .image 2 1 "image" "2D"
  | .volume => ofDim type .image 3 1 "image" "3D"
  | .cube => ofDim type .image 1 6 "image" "Cube"
  | .subpassData => ofDim type .image 1 1 "subpassInput" "Subpass"
  | .rectangle | .buffer | .other _ => ofDim type .unknownImage 0 1 "image" "<unknown img>"

/-- The layout of a sampled image over an image. -/
def sampled (base : Layout) : Layout where
  shape := .sampledImage
  name := "sampler" ++ (base.image.map (·.suffix)).getD ""
  size := base.size
  baseSize := base.baseSize
  baseType := "sampledimage"
  baseCount := 1
  image := base.image

end Layout

/-- Why a layout cannot be given. An error concerns one question and leaves the rest of the module
usable. -/
inductive LayoutError where
  /-- An id that has to be a type is not defined. -/
  | unresolvedReference (id referencedFrom : Ident)
  | unknownVariable (id : Ident)
  /-- A variable's declared type is not a pointer. -/
  | notAPointer (owner type : Ident)
  /-- A pointer was reached inside a type. -/
  | pointerType (id : Ident)
  /-- The size of a type needs more than 32 bits. -/
  | sizeOverflow (id : Ident)
  /-- A type nests too deep; the id is that of the first type too far down. -/
  | tooDeep (id : Ident)
  /-- Too many types, or too many bytes of member names, would have to be visited. -/
  | tooComplex (id : Ident)
  deriving DecidableEq, Repr

end ShaderReflection
