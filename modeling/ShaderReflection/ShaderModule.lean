import ShaderReflection.Declaration
import ShaderReflection.Header

/-!
A module as the tables that its declarations fill. Later names and constants replace earlier ones,
decorations add up, and of several types or variables with one id the first stays.
-/

namespace ShaderReflection

/-- The reflection model of a module. -/
structure ShaderModule where
  header : Header
  names : WordMap String
  memberNames : WordMap (WordMap String)
  decorations : WordMap (Array Decoration)
  types : WordMap TypeDef
  constants : WordMap Constant
  moduleVariables : WordMap Variable
  entryPoints : Array EntryPoint
  /-- The variables of a uniform class, in the order of their declarations. -/
  uniformVariables : Array Ident

namespace ShaderModule

/-- A module that declares nothing. -/
def empty (header : Header) : ShaderModule where
  header
  names := ∅
  memberNames := ∅
  decorations := ∅
  types := ∅
  constants := ∅
  moduleVariables := ∅
  entryPoints := #[]
  uniformVariables := #[]

/-- Adds a variable, unless its id is taken. -/
def declareVariable (m : ShaderModule) (declared : Variable) : ShaderModule :=
  if m.moduleVariables.contains declared.id then m
  else
    { m with
      moduleVariables := m.moduleVariables.insert declared.id declared
      uniformVariables :=
        if declared.storage.isUniform then m.uniformVariables.push declared.id
        else m.uniformVariables }

/-- Adds a declaration. -/
def declare (m : ShaderModule) : Declaration → ShaderModule
  | .extInstImport .. => m
  | .entryPoint entry => { m with entryPoints := m.entryPoints.push entry }
  | .name target text => { m with names := m.names.insert target text }
  | .memberName target member text =>
      { m with
        memberNames := m.memberNames.alter target fun members =>
          some ((members.getD ∅).insert member text) }
  | .decorate target decoration =>
      { m with
        decorations := m.decorations.alter target fun decorations =>
          some ((decorations.getD #[]).push decoration) }
  | .type type => { m with types := m.types.insertIfNew type.id type }
  | .constant constant =>
      { m with constants := m.constants.insert constant.id constant }
  | .moduleVariable declared => m.declareVariable declared

/-- The module with a header and a sequence of declarations. -/
def ofDeclarations (header : Header) (declarations : List Declaration) : ShaderModule :=
  declarations.foldl declare (empty header)

variable (m : ShaderModule)

/-- The debug name of an id. -/
def name? (id : Ident) : Option String := m.names[id]?

/-- The debug name of a struct's member. -/
def memberName? (id : Ident) (member : Word) : Option String :=
  m.memberNames[id]?.bind fun members => members[member]?

/-- The decorations of an id, in the order they were applied. -/
def decorationsOf (id : Ident) : List Decoration := (m.decorations[id]?.getD #[]).toList

/-- The arguments of the last decoration of a kind. -/
def decorationArgs? (id : Ident) (kind : Word) : Option (List Word) :=
  ((m.decorationsOf id).reverse.find? (·.kind == kind)).map (·.args)

/-- The first argument of the last decoration of a kind. -/
def decorationValue? (id : Ident) (kind : Word) : Option Word :=
  (m.decorationArgs? id kind).bind (·.head?)

/-- The number of the decoration that gives an interface variable its location. -/
def locationDecoration : Word := 30

/-- The number of the decoration that gives a resource its binding. -/
def bindingDecoration : Word := 33

/-- The number of the decoration that gives a resource its descriptor set. -/
def setDecoration : Word := 34

/-- The location of an interface variable: the first argument of its first location decoration. -/
def location? (id : Ident) : Option Word :=
  ((m.decorationsOf id).find? (·.kind == locationDecoration)).bind (·.args.head?)

/-- Whether an interface variable passes for a built-in one, which is when nothing decorates it. -/
def isBuiltin (id : Ident) : Bool := (m.decorationsOf id).isEmpty

/-- The type with an id. -/
def type? (id : Ident) : Option TypeDef := m.types[id]?

/-- The shape of the type with an id. -/
def kind? (id : Ident) : Option TypeKind := (m.type? id).map (·.kind)

/-- The constant with an id. -/
def constant? (id : Ident) : Option Constant := m.constants[id]?

/-- The variable with an id. -/
def variableAt? (id : Ident) : Option Variable := m.moduleVariables[id]?

/-- The element count that an array's length operand stands for: the value of the constant it
names, or the operand itself when there is no such constant. -/
def arrayLength (length : Word) : Word :=
  ((m.constant? length).bind (·.value?)).getD length

end ShaderModule

end ShaderReflection
