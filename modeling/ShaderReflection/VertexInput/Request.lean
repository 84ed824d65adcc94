import ShaderReflection.Layout.Resolve
import ShaderReflection.Text.Blank
import ShaderReflection.Text.Numeral

/-!
Requests for vertex input: which input locations each vertex buffer feeds. A buffer is written as
`input=` and its locations, separated by commas.
-/

namespace ShaderReflection

/-- Why a request cannot be read, or cannot be met by an entry point. -/
inductive VertexInputError where
  | unknownArgument (argument : String)
  | invalidLocation (argument value : String)
  /-- The entry point has no input at a location. -/
  | missingLocation (entry : String) (location : Word)
  | layout (location : Word) (cause : LayoutError)
  /-- An input is not made of one to four 32-bit numbers. -/
  | unsupportedFormat (location : Word) (baseType : String) (count : Word)
  /-- A vertex of a buffer needs more bytes than 32 bits can count. -/
  | strideOverflow (binding : Word)
  deriving DecidableEq, Repr

namespace VertexInputError

/-- The message that reports an error. -/
def message : VertexInputError → String
  | unknownArgument argument =>
      s!"unrecognised vertex input argument `{argument}` " ++
        "(expected `input=<location>[,<location>...]`)"
  | invalidLocation argument value => s!"invalid location `{value}` in `{argument}`"
  | missingLocation entry location => s!"entry point `{entry}` has no input at location {location}"
  | layout location cause => s!"input at location {location} has layout error: {cause.message}"
  | unsupportedFormat location baseType count =>
      s!"input at location {location} ({baseType} x{count}) has no vertex format"
  | strideOverflow binding => s!"vertex buffer {binding} exceeds u32 bytes"

/-- The error that lies behind an error, if one does. -/
def cause? : VertexInputError → Option LayoutError
  | layout _ cause => some cause
  | _ => none

end VertexInputError

/-- The input locations of each vertex buffer. -/
structure VertexInputRequest where
  buffers : List (List Word)
  deriving DecidableEq, Repr

namespace VertexInputRequest

/-- What an argument begins with. -/
def keyword : String := "input="

/-- Whether an argument begins with the keyword. -/
def hasKeyword (argument : String) : Bool := keyword.toList.isPrefixOf argument.toList

/-- The pieces of a text between commas, of which there is always one more than commas. -/
def pieces (text : List Char) : List (List Char) :=
  let (first, others) := text.foldr
    (fun c (first, others) => if c = ',' then ([], first :: others) else (c :: first, others))
    ([], [])
  first :: others

/-- The locations in a list. Blanks around a location do not count, and empty pieces are passed
over. -/
def parseLocations (argument : String) (list : List Char) : Except VertexInputError (List Word) :=
  let values := ((pieces list).map Blank.trim).filter (!·.isEmpty)
  values.mapM fun value =>
    match Numeral.word? value with
    | some location => .ok location
    | none => .error (.invalidLocation argument (String.ofList value))

/-- The locations of the buffer that an argument describes. -/
def parseBuffer (argument : String) : Except VertexInputError (List Word) :=
  if hasKeyword argument then
    parseLocations argument (argument.toList.drop keyword.length)
  else .error (.unknownArgument argument)

/-- Reads a request from its arguments, one for each buffer. -/
def parse (arguments : List String) : Except VertexInputError VertexInputRequest :=
  (arguments.mapM parseBuffer).map VertexInputRequest.mk

/-- Whether no buffers are requested. -/
def isEmpty (request : VertexInputRequest) : Bool := request.buffers.isEmpty

end VertexInputRequest

end ShaderReflection
