import ShaderReflection.Instruction.Cursor
import ShaderReflection.ShaderModule

/-!
Reading a module: the header, then the instructions, then what each of them declares. Instructions
are judged in the order of the stream, so the first one that is refused decides the error, and an
instruction that cannot be found at all is refused after all those before it.
-/

namespace ShaderReflection.ShaderModule

/-- Reads the header of a module that is within the limits. -/
def parseHeader (options : ParseOptions) (words : List Word) : Except ParseError Header := do
  if options.maxWords < words.length then
    throw (.tooManyWords words.length options.maxWords)
  let header ← Header.parse words
  if options.maxIdBound < header.bound then
    throw (.idBoundTooLarge header.bound options.maxIdBound)
  return header

/-- Reads what the instructions of a stream declare. -/
def parseDeclarations (context : Declaration.Context) (words : List Word) :
    Except ParseError (List Declaration) := do
  let (instructions, fault) := scan words
  let declarations ← instructions.filterMapM (Declaration.ofInstruction context)
  match fault with
  | some error => throw error
  | none => return declarations

/-- Reads a module. -/
def parse (names : NameTable) (options : ParseOptions) (words : List Word) :
    Except ParseError ShaderModule := do
  let header ← parseHeader options words
  let context := { names, bound := header.bound, checkIdBound := options.checkIdBound }
  let declarations ← parseDeclarations context words
  return ofDeclarations header declarations

/-- The words of a module's byte image. -/
def wordsOfImage (image : List UInt8) : Except ParseError (List Word) :=
  if image.length % 4 = 0 then .ok (Word.ofImage image)
  else .error (.misalignedBytes image.length)

/-- Reads a module from its byte image. -/
def parseImage (names : NameTable) (options : ParseOptions) (image : List UInt8) :
    Except ParseError ShaderModule := do
  parse names options (← wordsOfImage image)

end ShaderReflection.ShaderModule
