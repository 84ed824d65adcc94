import ShaderReflection.NameTable.Core
import ShaderReflection.NameTable.GrammarFile
import ShaderReflection.Report
import ShaderReflection.ShaderModule.Parse

/-!
The command line: the arguments it takes, what it prints for a module, and how it reports failures.
Files are read by the caller, so that everything here is a function of their contents.
-/

namespace ShaderReflection.CommandLine

/-- What a run is asked to do. -/
structure Options where
  /-- The module's file. -/
  input : String
  /-- The grammar's file, if names are to come from one. -/
  grammar : Option String
  /-- The locations that feed each vertex buffer. -/
  buffers : List String
  /-- Whether descriptor kinds are reported. -/
  descriptors : Bool
  /-- Whether the module's instructions are logged. -/
  trace : Bool
  deriving DecidableEq, Repr

/-- Options that have been read in part. -/
structure Draft where
  input : Option String := none
  grammar : Option String := none
  buffers : Array String := #[]
  descriptors : Bool := false
  trace : Bool := false

namespace Draft

/-- Takes the module's file. There is one, and its name is not empty. -/
def withInput (draft : Draft) (value : String) : Option Draft :=
  if draft.input.isSome || value.isEmpty then none else some { draft with input := some value }

/-- Takes the grammar's file. There is at most one, and its name is not empty. -/
def withGrammar (draft : Draft) (value : String) : Option Draft :=
  if draft.grammar.isSome || value.isEmpty then none
  else some { draft with grammar := some value }

/-- Takes the locations of a buffer. -/
def withBuffer (draft : Draft) (value : String) : Option Draft :=
  some { draft with buffers := draft.buffers.push value }

/-- Takes the request for descriptor kinds, which is not made twice. -/
def withDescriptors (draft : Draft) : Option Draft :=
  if draft.descriptors then none else some { draft with descriptors := true }

/-- Takes the request for a log, which is not made twice. -/
def withTrace (draft : Draft) : Option Draft :=
  if draft.trace then none else some { draft with trace := true }

end Draft

/-- Whether an argument is written like an option. A single hyphen is not one. -/
def isOption (argument : String) : Bool :=
  argument != "-" && "-".toList.isPrefixOf argument.toList

/-- The value of an option that is written as the option, an equals sign and the value. -/
def attachedValue? (option argument : String) : Option String :=
  let start := option ++ "="
  if start.toList.isPrefixOf argument.toList then
    some (String.ofList (argument.toList.drop start.length))
  else none

/-- Reads arguments one by one. After `--` no argument is an option. -/
def readArguments (draft : Draft) : List String → Option Draft
  | [] => some draft
  | "--" :: rest => rest.foldlM Draft.withInput draft
  | "--descriptors" :: rest => do readArguments (← draft.withDescriptors) rest
  | "--trace" :: rest => do readArguments (← draft.withTrace) rest
  | "--grammar" :: value :: rest => do
      if isOption value then none else readArguments (← draft.withGrammar value) rest
  | "--input" :: value :: rest => do
      if isOption value then none else readArguments (← draft.withBuffer value) rest
  | argument :: rest => do
      if isOption argument then
        match attachedValue? "--grammar" argument, attachedValue? "--input" argument with
        | some value, _ => readArguments (← draft.withGrammar value) rest
        | none, some value => readArguments (← draft.withBuffer value) rest
        | none, none => none
      else readArguments (← draft.withInput argument) rest

/-- Reads the arguments of a run; there is nothing for a misuse. The grammar falls back to
`defaultGrammar`. -/
def Options.ofArguments? (defaultGrammar : Option String) (arguments : List String) :
    Option Options := do
  let draft ← readArguments {} arguments
  let draft ← match draft.grammar, defaultGrammar with
    | none, some value => draft.withGrammar value
    | _, _ => some draft
  let input ← draft.input
  return {
    input
    grammar := draft.grammar
    buffers := draft.buffers.toList
    descriptors := draft.descriptors
    trace := draft.trace }

/-- A failure: what was being done, and the errors behind it, the nearest first. -/
structure Failure where
  message : String
  causes : List String := []
  deriving DecidableEq, Repr

namespace Failure

/-- A text with the given margin in front of each line but the first. -/
def indent (margin : String) (text : String) : String :=
  (("\n" ++ margin).intercalate (text.splitOn "\n"))

/-- The lines on the causes. Several causes are numbered. -/
def causeLines : List String → List String
  | [cause] => ["    " ++ indent "    " cause]
  | causes => causes.zipIdx.map fun (cause, index) => s!"    {index}: " ++ indent "       " cause

/-- The text that reports a failure. -/
def report (failure : Failure) : String :=
  let causes :=
    if failure.causes.isEmpty then [] else ["", "Caused by:"] ++ causeLines failure.causes
  Report.lines (("Error: " ++ failure.message) :: causes)

end Failure

/-- What a run prints, what it logs, and why it failed, if it did. What was printed before a
failure stays. -/
structure Outcome where
  output : String
  log : String := ""
  failure : Option Failure := none
  deriving DecidableEq, Repr

/-- The contents of a file, or why it could not be read. -/
abbrev Contents := Except String (List UInt8)

/-- The name table that a run uses. -/
def nameTable (grammar : Option (String × Contents)) : Except Failure NameTable :=
  match grammar with
  | none => .ok NameTable.core
  | some (path, .error cause) => .error ⟨s!"open grammar {path}", [cause]⟩
  | some (path, .ok text) =>
    (Grammar.load text).mapError fun error => ⟨s!"load grammar {path}", [error.message]⟩

/-- The module that a run is about. -/
def readModule (names : NameTable) (path : String) (contents : Contents) :
    Except Failure ShaderModule :=
  match contents with
  | .error cause => .error ⟨s!"read {path}", [cause]⟩
  | .ok image =>
    (ShaderModule.parseImage names {} image).mapError fun error =>
      ⟨s!"parse SPIR-V module {path}", [error.message]⟩

/-- The argument that describes a vertex buffer, whose keyword may be left out. -/
def bufferArgument (value : String) : String :=
  if VertexInputRequest.hasKeyword value then value else VertexInputRequest.keyword ++ value

/-- The report on the vertex input of the first entry point. -/
def vertexInput (m : ShaderModule) (buffers : List String) : Except Failure String := do
  let request ← (VertexInputRequest.parse (buffers.map bufferArgument)).mapError fun error =>
    { message := "parse --input", causes := [error.message] }
  match m.entryLayouts with
  | [] => throw { message := "module has no entry points" }
  | entry :: _ =>
    let layout ← (VertexInputLayout.build request entry).mapError fun error =>
      { message := s!"derive vertex input for entry point '{entry.name}'"
        causes := error.message :: (error.cause?.map (·.message)).toList }
    return Report.vertexInput entry.name layout

/-- The reports on a module that a run asks for. -/
def inspect (options : Options) (names : NameTable) (m : ShaderModule) : Outcome :=
  let overview := Report.header m.header ++ Report.entryPoints (m.entryInterfaces names) ++
    Report.uniforms m
  let descriptors := if options.descriptors then Report.descriptors m.descriptors else ""
  if options.buffers.isEmpty then { output := overview ++ descriptors }
  else
    match vertexInput m options.buffers with
    | .error failure => { output := overview, failure }
    | .ok text => { output := overview ++ text ++ descriptors }

/-- The log of the instructions that a file's contents hold. -/
def instructionLog (names : NameTable) : Contents → String
  | .ok image => Report.instructions names (scan (Word.ofImage image)).1
  | .error _ => ""

/-- A run, given the contents of the files that its options name. -/
def run (options : Options) (grammar : Option Contents) (input : Contents) : Outcome :=
  match nameTable (options.grammar.bind fun path => grammar.map (path, ·)) with
  | .error failure => { output := "", failure }
  | .ok names =>
    let log := if options.trace then instructionLog names input else ""
    match readModule names options.input input with
    | .error failure => { output := "", log, failure }
    | .ok m => { inspect options names m with log }

end ShaderReflection.CommandLine
