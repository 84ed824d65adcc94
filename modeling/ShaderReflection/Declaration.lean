import ShaderReflection.Instruction
import ShaderReflection.Limits
import ShaderReflection.NameTable
import ShaderReflection.ParseError
import ShaderReflection.Text.Literal
import ShaderReflection.TypeKind

/-!
What a single instruction declares about its module. Reading a declaration looks at the instruction
alone, so whether an instruction is accepted does not depend on the ones before it.
-/

namespace ShaderReflection

/-- The stage that an entry point runs in. -/
inductive ExecutionModel where
  | vertex
  | fragment
  | kernel
  | other (word : Word)
  deriving DecidableEq, Repr

namespace ExecutionModel

/-- The stage that an operand word denotes. -/
def ofWord (word : Word) : ExecutionModel :=
  if word = 0 then vertex
  else if word = 4 then fragment
  else if word = 6 then kernel
  else other word

/-- The text of a stage. -/
def text : ExecutionModel → String
  | vertex => "Vertex"
  | fragment => "Fragment"
  | kernel => "Kernel"
  | other word => s!"<unknown mode {word}>"

end ExecutionModel

/-- A function that a pipeline can start at. -/
structure EntryPoint where
  name : String
  function : Ident
  model : ExecutionModel
  /-- The interface variables, as declared. -/
  interface : List Ident
  deriving DecidableEq, Repr

/-- A decoration of an id. -/
structure Decoration where
  kind : Word
  /-- The mnemonic in the name table that the module was read with. -/
  name : Option String
  args : List Word
  deriving DecidableEq, Repr

/-- A scalar constant. -/
structure Constant where
  id : Ident
  type : Ident
  /-- The value, low-order word first. -/
  words : List Word
  deriving DecidableEq, Repr

/-- The low-order word of a constant's value. -/
def Constant.value? (constant : Constant) : Option Word := constant.words.head?

/-- A module-scope variable. -/
structure Variable where
  id : Ident
  /-- The declared type, a pointer in a well-formed module. -/
  type : Ident
  storage : StorageClass
  deriving DecidableEq, Repr

/-- What an instruction declares. -/
inductive Declaration where
  | extInstImport (id : Ident) (set : String)
  | entryPoint (entry : EntryPoint)
  | name (target : Ident) (text : String)
  | memberName (target : Ident) (member : Word) (text : String)
  | decorate (target : Ident) (decoration : Decoration)
  | type (type : TypeDef)
  | constant (constant : Constant)
  | moduleVariable (declared : Variable)
  deriving DecidableEq, Repr

/-- What an instruction is read against. -/
structure Declaration.Context where
  names : NameTable
  bound : Word
  checkIdBound : Bool

namespace Declaration.Context

variable (context : Context) (insn : Instruction)

/-- Refuses an id at or above the bound, if bounds are checked. -/
def checkId (id : Ident) : Except ParseError Unit :=
  if context.checkIdBound && context.bound ≤ id then
    .error (.idOutOfBounds id context.bound insn.offset)
  else .ok ()

/-- Refuses the first id of a list that is at or above the bound, if bounds are checked. -/
def checkIds (ids : List Ident) : Except ParseError Unit := ids.forM (context.checkId insn)

end Declaration.Context

namespace Declaration

/-- Reads the literal string that begins at the operand with index `start`. -/
def literal (op : Operation) (insn : Instruction) (start : Nat) :
    Except ParseError (String × Nat) :=
  match Literal.decode? insn.operands start with
  | some result => .ok result
  | none => .error (.malformed insn.offset (some insn.opcode) (.unterminatedString op))

/-- Reads the operands of an operation. The number of operands is checked first, then the id that
the instruction defines or targets, then its string, and last its interface ids. -/
def ofOperands (context : Context) (op : Operation) (insn : Instruction) :
    Except ParseError Declaration :=
  let define (id : Ident) (kind : TypeKind) : Except ParseError Declaration := do
    context.checkId insn id
    return .type (.ofKind id kind)
  match op, insn.operands with
  | .extInstImport, id :: _ :: _ => do
      context.checkId insn id
      let (set, _) ← literal op insn 1
      return .extInstImport id set
  | .entryPoint, model :: function :: _ :: _ => do
      context.checkId insn function
      let (text, next) ← literal op insn 2
      let interface := insn.operands.drop next
      context.checkIds insn interface
      return .entryPoint ⟨text, function, .ofWord model, interface⟩
  | .name, target :: _ :: _ => do
      context.checkId insn target
      let (text, _) ← literal op insn 1
      return .name target text
  | .memberName, target :: member :: _ :: _ => do
      context.checkId insn target
      let (text, _) ← literal op insn 2
      return .memberName target member text
  | .decorate, target :: kind :: args => do
      context.checkId insn target
      return .decorate target ⟨kind, context.names.decorationName kind, args⟩
  | .typeVoid, id :: _ => define id .void
  | .typeBool, id :: _ => define id .bool
  | .typeInt, id :: width :: signed :: _ => define id (.int width (signed != 0))
  | .typeFloat, id :: width :: _ => define id (.float width)
  | .typeVector, id :: component :: count :: _ => define id (.vector component count)
  | .typeMatrix, id :: column :: columns :: _ => define id (.matrix column columns)
  | .typeArray, id :: element :: length :: _ => define id (.array element length)
  | .typePointer, id :: storage :: pointee :: _ => define id (.pointer (.ofWord storage) pointee)
  | .typeStruct, id :: members => define id (.struct members)
  | .typeImage, id :: sampledType :: dim :: depth :: arrayed :: multisampled :: sampled :: format
      :: _ =>
      define id (.image
        { sampledType, dim := .ofWord dim, depth, arrayed := arrayed != 0,
          multisampled := multisampled != 0, sampled, format })
  | .typeSampler, id :: _ => define id .sampler
  | .typeSampledImage, id :: image :: _ => define id (.sampledImage image)
  | .constant, valueType :: id :: word :: words => do
      context.checkId insn id
      return .constant ⟨id, valueType, word :: words⟩
  | .moduleVariable, pointerType :: id :: storage :: _ => do
      context.checkId insn id
      return .moduleVariable ⟨id, pointerType, .ofWord storage⟩
  | _, operands =>
      .error (.malformed insn.offset (some insn.opcode) (.missingOperand op operands.length))

/-- What an instruction declares: nothing, if its opcode has no mnemonic or one that no operation
has. -/
def ofInstruction (context : Context) (insn : Instruction) :
    Except ParseError (Option Declaration) :=
  match (context.names.opcodeName insn.opcode).bind Operation.ofMnemonic? with
  | none => .ok none
  | some op => (ofOperands context op insn).map some

end Declaration

end ShaderReflection
