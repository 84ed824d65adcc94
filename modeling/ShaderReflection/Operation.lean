/-!
The instructions that a module's tables are built from. They are told apart by mnemonic and not by
number, so a name table that gives an instruction another number changes nothing else.
-/

namespace ShaderReflection

/-- An instruction that declares something about the module. -/
inductive Operation where
  | extInstImport
  | entryPoint
  | name
  | memberName
  | decorate
  | typeVoid
  | typeBool
  | typeInt
  | typeFloat
  | typeVector
  | typeMatrix
  | typeImage
  | typeSampler
  | typeSampledImage
  | typeArray
  | typePointer
  | typeStruct
  | constant
  | moduleVariable
  deriving DecidableEq, Repr

namespace Operation

/-- The mnemonic without its leading `Op`. -/
def stem : Operation → String
  | extInstImport => "ExtInstImport"
  | entryPoint => "EntryPoint"
  | name => "Name"
  | memberName => "MemberName"
  | decorate => "Decorate"
  | typeVoid => "TypeVoid"
  | typeBool => "TypeBool"
  | typeInt => "TypeInt"
  | typeFloat => "TypeFloat"
  | typeVector => "TypeVector"
  | typeMatrix => "TypeMatrix"
  | typeImage => "TypeImage"
  | typeSampler => "TypeSampler"
  | typeSampledImage => "TypeSampledImage"
  | typeArray => "TypeArray"
  | typePointer => "TypePointer"
  | typeStruct => "TypeStruct"
  | constant => "Constant"
  | moduleVariable => "Variable"

/-- The mnemonic in full. -/
def mnemonic (op : Operation) : String := "Op" ++ op.stem

/-- Every operation. -/
def all : List Operation :=
  [extInstImport, entryPoint, name, memberName, decorate, typeVoid, typeBool, typeInt, typeFloat,
    typeVector, typeMatrix, typeImage, typeSampler, typeSampledImage, typeArray, typePointer,
    typeStruct, constant, moduleVariable]

/-- A mnemonic without the `Op` it may begin with. At most one is taken off. -/
def stemOf (mnemonic : String) : String :=
  match mnemonic.toList with
  | 'O' :: 'p' :: rest => String.ofList rest
  | _ => mnemonic

/-- The operation with a given mnemonic, written with or without its leading `Op`. -/
def ofMnemonic? (mnemonic : String) : Option Operation :=
  let stem := stemOf mnemonic
  all.find? fun op => op.stem == stem

/-- How many operand words the operation reads at least. -/
def minOperands : Operation → Nat
  | typeVoid | typeBool | typeSampler | typeStruct => 1
  | extInstImport | name | decorate | typeFloat | typeSampledImage => 2
  | entryPoint | memberName | typeInt | typeVector | typeMatrix | typeArray | typePointer
  | constant | moduleVariable => 3
  | typeImage => 8

/-- The number that the standard gives to the operation's opcode. -/
def opcode : Operation → UInt16
  | name => 5
  | memberName => 6
  | extInstImport => 11
  | entryPoint => 15
  | typeVoid => 19
  | typeBool => 20
  | typeInt => 21
  | typeFloat => 22
  | typeVector => 23
  | typeMatrix => 24
  | typeImage => 25
  | typeSampler => 26
  | typeSampledImage => 27
  | typeArray => 28
  | typeStruct => 30
  | typePointer => 32
  | constant => 43
  | moduleVariable => 59
  | decorate => 71

end Operation

end ShaderReflection
