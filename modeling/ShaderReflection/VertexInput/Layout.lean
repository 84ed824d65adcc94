import ShaderReflection.Interface
import ShaderReflection.VertexInput.Format
import ShaderReflection.VertexInput.Request

/-!
The vertex-input state of a pipeline: a binding for each requested buffer, and the attributes that
it feeds, packed one after the other in the order of the request.
-/

namespace ShaderReflection

/-- How often a buffer moves on to its next element. -/
inductive VertexInputRate where
  | perVertex
  | perInstance
  deriving DecidableEq, Repr

/-- A vertex buffer. -/
structure VertexBinding where
  binding : Word
  /-- How many bytes the attributes of one vertex take. -/
  stride : Word
  rate : VertexInputRate
  deriving DecidableEq, Repr

/-- An input that a vertex buffer feeds. -/
structure VertexAttribute where
  location : Word
  binding : Word
  format : VertexFormat
  /-- Where the attribute begins within a vertex. -/
  offset : Word
  deriving DecidableEq

/-- The vertex-input state of a pipeline. -/
structure VertexInputLayout where
  bindings : List VertexBinding
  attributes : List VertexAttribute
  deriving DecidableEq

namespace VertexInputLayout

/-- The part of a buffer that has been packed: its attributes and their bytes so far. -/
structure Packing where
  offset : Word := 0
  attributes : Array VertexAttribute := #[]

/-- Packs the input at a location. -/
def Packing.add (entry : EntryLayout) (binding : Word) (packing : Packing) (location : Word) :
    Except VertexInputError Packing := do
  let some input := entry.inputs[location]?
    | throw (.missingLocation entry.name location)
  let layout ← input.layout.mapError (.layout location)
  let some format := VertexFormat.ofBase? layout.baseType layout.baseCount
    | throw (.unsupportedFormat location layout.baseType layout.baseCount)
  let some offset := (Word.mul? layout.baseSize layout.baseCount).bind (Word.add? packing.offset)
    | throw (.strideOverflow binding)
  let packed := { location, binding, format, offset := packing.offset }
  return { offset, attributes := packing.attributes.push packed }

/-- The binding of a buffer and the attributes it feeds. -/
def ofBuffer (entry : EntryLayout) (binding : Word) (locations : List Word) :
    Except VertexInputError (VertexBinding × List VertexAttribute) := do
  let packing ← locations.foldlM (Packing.add entry binding) {}
  return (⟨binding, packing.offset, .perVertex⟩, packing.attributes.toList)

/-- The vertex-input state that a request describes for an entry point. -/
def build (request : VertexInputRequest) (entry : EntryLayout) :
    Except VertexInputError VertexInputLayout := do
  let buffers ← request.buffers.zipIdx.mapM fun (locations, index) =>
    ofBuffer entry index.toUInt32 locations
  return { bindings := buffers.map (·.1), attributes := buffers.flatMap (·.2) }

end VertexInputLayout

end ShaderReflection
