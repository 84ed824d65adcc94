import ShaderReflection.Layout.Resolve
import ShaderReflection.Rendering

/-!
The interfaces of entry points: the variables a stage reads and writes, and the layouts of the
inputs that have a location.
-/

namespace ShaderReflection

/-- A variable that an entry point reads or writes. -/
structure InterfaceVariable where
  id : Ident
  name : Option String
  typeText : String
  decorationsText : String
  location : Option Word
  /-- Whether the variable passes for a built-in one. -/
  isBuiltin : Bool
  deriving DecidableEq, Repr

/-- An entry point with its interface split into inputs and outputs. -/
structure EntryInterface where
  name : String
  function : Ident
  model : ExecutionModel
  inputs : List InterfaceVariable
  outputs : List InterfaceVariable
  deriving DecidableEq, Repr

/-- An input that has a location. Its layout, or why there is none, concerns this input alone. -/
structure LocatedInput where
  location : Word
  name : Option String
  variableId : Ident
  layout : Except LayoutError Layout

/-- An entry point with the layouts of its inputs, by location. -/
structure EntryLayout where
  name : String
  model : ExecutionModel
  inputs : WordMap LocatedInput

namespace ShaderModule

variable (m : ShaderModule)

/-- Whether an id belongs to a variable of a storage class. -/
def hasClass (storage : StorageClass) (id : Ident) : Bool :=
  (m.variableAt? id).any (·.storage == storage)

/-- What is known about an interface variable. -/
def interfaceVariable (names : NameTable) (id : Ident) : InterfaceVariable where
  id
  name := m.name? id
  typeText := m.variableText id
  decorationsText := m.decorationsText names id
  location := m.location? id
  isBuiltin := m.isBuiltin id

/-- The interface of an entry point. Ids that are neither input nor output variables are passed
over, and an id that is listed twice appears twice. -/
def entryInterface (names : NameTable) (entry : EntryPoint) : EntryInterface where
  name := entry.name
  function := entry.function
  model := entry.model
  inputs := (entry.interface.filter (m.hasClass .input)).map (m.interfaceVariable names)
  outputs := (entry.interface.filter (m.hasClass .output)).map (m.interfaceVariable names)

/-- The interfaces of all entry points, in the order they are declared. -/
def entryInterfaces (names : NameTable) : List EntryInterface :=
  m.entryPoints.toList.map (m.entryInterface names)

/-- The input with an id, if it is one and has a location. -/
def locatedInput? (id : Ident) : Option LocatedInput :=
  if m.hasClass .input id then
    (m.location? id).map fun location =>
      { location, name := m.name? id, variableId := id, layout := m.variableLayout id }
  else none

/-- The located inputs of an entry point. Of several inputs with one location the last one
stays. -/
def entryLayout (entry : EntryPoint) : EntryLayout where
  name := entry.name
  model := entry.model
  inputs := (entry.interface.filterMap m.locatedInput?).foldl
    (fun inputs input => inputs.insert input.location input) ∅

/-- The located inputs of all entry points, in the order they are declared. -/
def entryLayouts : List EntryLayout := m.entryPoints.toList.map m.entryLayout

end ShaderModule

end ShaderReflection
