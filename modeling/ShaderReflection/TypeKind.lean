import ShaderReflection.Word

/-!
The shapes that types are declared with. A composite shape holds the ids of its parts as they were
written; nothing is looked up until a layout or a rendering asks for it.
-/

namespace ShaderReflection

/-- Where a variable or a pointer's target is stored. -/
inductive StorageClass where
  | uniformConstant
  | input
  | uniform
  | output
  | function
  /-- A class that reflection treats like any other word. -/
  | other (word : Word)
  deriving DecidableEq, Repr

namespace StorageClass

/-- The class that an operand word denotes. -/
def ofWord (word : Word) : StorageClass :=
  if word = 0 then uniformConstant
  else if word = 1 then input
  else if word = 2 then uniform
  else if word = 3 then output
  else if word = 7 then function
  else other word

/-- The operand word for a class. -/
def toWord : StorageClass → Word
  | uniformConstant => 0
  | input => 1
  | uniform => 2
  | output => 3
  | function => 7
  | other word => word

/-- The name of the class. -/
def name : StorageClass → String
  | uniformConstant => "UniformConstant"
  | input => "Input"
  | uniform => "Uniform"
  | output => "Output"
  | function => "Function"
  | other _ => "Other"

/-- Whether variables of the class are resources that a descriptor binds. -/
def isUniform : StorageClass → Bool
  | uniformConstant | uniform => true
  | _ => false

end StorageClass

/-- The dimensionality of an image. -/
inductive Dim where
  | line
  | plane
  | volume
  | cube
  | rectangle
  | buffer
  | subpassData
  /-- A dimensionality without a name. -/
  | other (word : Word)
  deriving DecidableEq, Repr

namespace Dim

/-- The dimensionality that an operand word denotes. -/
def ofWord (word : Word) : Dim :=
  if word = 0 then line
  else if word = 1 then plane
  else if word = 2 then volume
  else if word = 3 then cube
  else if word = 4 then rectangle
  else if word = 5 then buffer
  else if word = 6 then subpassData
  else other word

/-- The text of a dimensionality. -/
def text : Dim → String
  | line => "1D"
  | plane => "2D"
  | volume => "3D"
  | cube => "Cube"
  | rectangle => "Rect"
  | buffer => "Buffer"
  | subpassData => "SubpassData"
  | other word => s!"Dim({word})"

end Dim

/-- What an image type is declared with. -/
structure ImageType where
  sampledType : Ident
  dim : Dim
  /-- 0 for an image without depth, 1 for one with it, 2 when unknown. -/
  depth : Word
  arrayed : Bool
  multisampled : Bool
  /-- 1 for a sampled image, 2 for a storage image, 0 when only known at run time. -/
  sampled : Word
  format : Word
  deriving DecidableEq, Repr

/-- The shape of a type. -/
inductive TypeKind where
  | void
  | bool
  | int (width : Word) (signed : Bool)
  | float (width : Word)
  | vector (component : Ident) (count : Word)
  /-- The length is the operand as written, normally the id of a constant. -/
  | array (element : Ident) (length : Word)
  | matrix (column : Ident) (columns : Word)
  | pointer (storage : StorageClass) (pointee : Ident)
  | struct (members : List Ident)
  | image (image : ImageType)
  | sampler
  | sampledImage (image : Ident)
  deriving DecidableEq, Repr

namespace TypeKind

/-- The byte size that is known without looking at other types. Numbers take four bytes whatever
width they are declared with. -/
def storedSize? : TypeKind → Option Word
  | void => some 0
  | bool | int .. | float .. => some 4
  | _ => none

/-- A short name for the shape; numbers show their declared width. -/
def displayName : TypeKind → String
  | void => "Void"
  | bool => "Bool"
  | int width true => s!"Int{width}"
  | int width false => s!"UInt{width}"
  | float width => s!"Float{width}"
  | vector .. => "Vector"
  | array .. => "Array"
  | matrix .. => "Matrix"
  | pointer .. => "Pointer"
  | struct .. => "Struct"
  | image .. => "Image"
  | sampler => "Sampler"
  | sampledImage .. => "SampledImage"

end TypeKind

/-- A declared type. -/
structure TypeDef where
  id : Ident
  name : String
  kind : TypeKind
  deriving DecidableEq, Repr

/-- The type that is declared with an id and a shape. It is named for its shape. -/
def TypeDef.ofKind (id : Ident) (kind : TypeKind) : TypeDef := ⟨id, kind.displayName, kind⟩

end ShaderReflection
