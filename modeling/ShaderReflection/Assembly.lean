import ShaderReflection.Header
import ShaderReflection.Instruction
import ShaderReflection.Text.Literal

/-!
Writing modules, statement by statement. Nothing is checked, so malformed modules can be written
as well.
-/

namespace ShaderReflection

/-- A step in writing a module. Every step but `bound` writes one instruction. -/
inductive Statement where
  /-- Sets the header's id bound. -/
  | bound (bound : Word)
  | raw (opcode : UInt16) (operands : List Word)
  | capability (capability : Word)
  | extInstImport (id : Ident) (set : String)
  | memoryModel (addressing memory : Word)
  | entryPoint (model : Word) (function : Ident) (name : String) (interface : List Ident)
  | name (target : Ident) (text : String)
  | memberName (target : Ident) (member : Word) (text : String)
  | decorate (target : Ident) (kind : Word) (args : List Word)
  | typeVoid (id : Ident)
  | typeBool (id : Ident)
  | typeInt (id : Ident) (width : Word) (signed : Bool)
  | typeFloat (id : Ident) (width : Word)
  | typeVector (id component : Ident) (count : Word)
  | typeMatrix (id column : Ident) (columns : Word)
  | typeArray (id element length : Ident)
  | typeStruct (id : Ident) (members : List Ident)
  | typePointer (id : Ident) (storage : Word) (pointee : Ident)
  /-- An image without depth or multisampling that is sampled and has no known format. -/
  | typeImage (id sampledType : Ident) (dim : Word) (arrayed : Bool)
  | typeSampler (id : Ident)
  | typeSampledImage (id image : Ident)
  | constant (type id : Ident) (value : Word)
  | moduleVariable (type id : Ident) (storage : Word)
  deriving DecidableEq, Repr

namespace Statement

/-- The operand for a truth value. -/
def flag (value : Bool) : Word := if value then 1 else 0

/-- The opcode and the operands of the instruction that a step writes, if it writes one. -/
def instruction? : Statement → Option (UInt16 × List Word)
  | bound _ => none
  | raw opcode operands => some (opcode, operands)
  | capability number => some (17, [number])
  | extInstImport id set => some (Operation.extInstImport.opcode, id :: Literal.encode set)
  | memoryModel addressing memory => some (14, [addressing, memory])
  | entryPoint model function text interface =>
      some (Operation.entryPoint.opcode, model :: function :: (Literal.encode text ++ interface))
  | name target text => some (Operation.name.opcode, target :: Literal.encode text)
  | memberName target member text =>
      some (Operation.memberName.opcode, target :: member :: Literal.encode text)
  | decorate target kind args => some (Operation.decorate.opcode, target :: kind :: args)
  | typeVoid id => some (Operation.typeVoid.opcode, [id])
  | typeBool id => some (Operation.typeBool.opcode, [id])
  | typeInt id width signed => some (Operation.typeInt.opcode, [id, width, flag signed])
  | typeFloat id width => some (Operation.typeFloat.opcode, [id, width])
  | typeVector id component count => some (Operation.typeVector.opcode, [id, component, count])
  | typeMatrix id column columns => some (Operation.typeMatrix.opcode, [id, column, columns])
  | typeArray id element length => some (Operation.typeArray.opcode, [id, element, length])
  | typeStruct id members => some (Operation.typeStruct.opcode, id :: members)
  | typePointer id storage pointee => some (Operation.typePointer.opcode, [id, storage, pointee])
  | typeImage id sampledType dim arrayed =>
      some (Operation.typeImage.opcode, [id, sampledType, dim, 0, flag arrayed, 0, 1, 0])
  | typeSampler id => some (Operation.typeSampler.opcode, [id])
  | typeSampledImage id image => some (Operation.typeSampledImage.opcode, [id, image])
  | constant type id value => some (Operation.constant.opcode, [type, id, value])
  | moduleVariable type id storage =>
      some (Operation.moduleVariable.opcode, [type, id, storage])

end Statement

/-- A module that is being written. -/
structure Assembly where
  bound : Word := 1024
  /-- The instructions so far. -/
  body : List Word := []
  deriving DecidableEq, Repr

namespace Assembly

/-- Carries out a step. -/
def add (assembly : Assembly) (statement : Statement) : Assembly :=
  match statement with
  | .bound bound => { assembly with bound }
  | _ =>
    match statement.instruction? with
    | none => assembly
    | some (opcode, operands) =>
      { assembly with body := assembly.body ++ Instruction.encode opcode operands }

/-- The header of the module: version 1.0, of no known generator. -/
def header (assembly : Assembly) : Header where
  magic := magicNumber
  version := 0x00010000
  generator := 0
  bound := assembly.bound
  schema := 0

/-- The module's words. -/
def words (assembly : Assembly) : List Word := assembly.header.words ++ assembly.body

/-- The module's byte image. -/
def image (assembly : Assembly) : List UInt8 := Word.image assembly.words

/-- Carries out a sequence of steps. -/
def ofStatements (statements : List Statement) : Assembly := statements.foldl add {}

end Assembly

end ShaderReflection
