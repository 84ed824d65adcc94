import ShaderReflection.Descriptor
import ShaderReflection.Instruction
import ShaderReflection.Interface
import ShaderReflection.Text.Numeral
import ShaderReflection.VertexInput.Layout

/-!
Reports on a module for people to read: its header, entry points, resources and vertex input.
-/

namespace ShaderReflection.Report

/-- A text of lines. -/
def lines (texts : List String) : String := String.join (texts.map (· ++ "\n"))

/-- The name to show for something that may have none. -/
def nameText (name : Option String) : String := name.getD "<unnamed>"

/-- The report on the header. -/
def header (header : Header) : String :=
  lines [s!"SPIR-V {header.major}.{header.minor} (generator {Numeral.hex header.generator}, " ++
    s!"id bound {header.bound})"]

/-- The log of a module's instructions. -/
def instructions (names : NameTable) (insns : List Instruction) : String :=
  lines (insns.map fun insn =>
    let mnemonic := (names.opcodeName insn.opcode).getD "<unknown>"
    s!"word {insn.offset}: {mnemonic} (opcode {insn.opcode}, {insn.wordCount} words)")

/-- The line on an interface variable. -/
def interfaceLine (entry : InterfaceVariable) : String :=
  s!"   {entry.decorationsText}: {entry.typeText} {nameText entry.name}"

/-- The lines on an entry point. Outputs that pass for built-in ones are not listed. -/
def entryLines (entry : EntryInterface) : List String :=
  [s!"Entry: '{entry.name}' [{entry.model.text}]",
    s!" Function: %{entry.function}",
    " Interface:",
    "  Input:"] ++
  entry.inputs.map interfaceLine ++
  ["  Output:"] ++
  (entry.outputs.filter (!·.isBuiltin)).map interfaceLine

/-- The report on the entry points. -/
def entryPoints (entries : List EntryInterface) : String := lines (entries.flatMap entryLines)

/-- The set or binding number of a resource. -/
def coordinate : Option Word → String
  | none => "-"
  | some number => toString number

/-- The place of a resource. -/
def coordinates (descriptor : Descriptor) : String :=
  s!"(set: {coordinate descriptor.set} binding: {coordinate descriptor.binding})"

/-- The lines on a resource: its layout, and its members if it is a struct. -/
def uniformLines (m : ShaderModule) (descriptor : Descriptor) : List String :=
  let place := coordinates descriptor
  let name := nameText descriptor.name
  match descriptor.layout with
  | .error error => [s!" {place} <layout error: {error.message}> varName: {name}"]
  | .ok layout =>
    let summary := s!" {place} {layout.name} varName: {name} (size: {layout.size})"
    match layout.members with
    | none => [summary]
    | some members =>
      let memberLines := members.map fun member =>
        s!"        {m.typeText member.typeId} {member.name},"
      [summary, "   \x7b"] ++ memberLines ++ ["   \x7d"]

/-- The report on the resources. -/
def uniforms (m : ShaderModule) : String :=
  lines ("Uniforms:" :: m.descriptors.flatMap (uniformLines m))

/-- The word for an input rate. -/
def rateText : VertexInputRate → String
  | .perVertex => "vertex"
  | .perInstance => "instance"

/-- The report on the vertex input of an entry point. -/
def vertexInput (entry : String) (layout : VertexInputLayout) : String :=
  let bindings := layout.bindings.map fun binding =>
    s!" binding {binding.binding}: stride {binding.stride}, input rate {rateText binding.rate}"
  let attributes := layout.attributes.map fun field =>
    s!" location {field.location}: binding {field.binding}, " ++
      s!"format {field.format.vulkanName}, offset {field.offset}"
  lines (s!"Vertex input for '{entry}':" :: (bindings ++ attributes))

/-- The report on descriptor kinds: how many there are of each, and the kind of each resource. -/
def descriptors (descriptors : List Descriptor) : String :=
  let sizes := (Descriptor.poolSizes descriptors).toList.map fun (kind, count) =>
    s!" {kind.vulkanName}: {count}"
  let bindings := descriptors.map fun descriptor =>
    s!" {coordinates descriptor} {descriptor.kind.vulkanName} {nameText descriptor.name}"
  lines (["Descriptor pool sizes:"] ++ sizes ++ ["Descriptor bindings:"] ++ bindings)

end ShaderReflection.Report
