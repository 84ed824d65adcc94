import ShaderReflection.Layout
import ShaderReflection.ShaderModule

/-!
Resolving the layout of a type or of what a variable points to. Types are followed at most
`maxLayoutDepth` levels down, and a budget counts the visits and the bytes of member names, so
cyclic types and types that expand to enormous trees are refused. How a budget is charged and how an
error is raised is left to the monad below it.
-/

namespace ShaderReflection

/-- The message that reports an error. -/
def LayoutError.message : LayoutError → String
  | unresolvedReference id referencedFrom =>
      s!"%{id} (referenced from %{referencedFrom}) has no type definition"
  | unknownVariable id => s!"%{id} is not a variable"
  | notAPointer owner type =>
      s!"variable %{owner} has type %{type}, which is not a pointer type"
  | pointerType id =>
      s!"pointer type %{id} cannot be laid out directly; resolve its pointee instead"
  | sizeOverflow id => s!"size of %{id} overflows u32"
  | tooDeep id => s!"type graph below %{id} nests deeper than {maxLayoutDepth} levels"
  | tooComplex id => s!"type graph reached at %{id} expands past the node or member-name limits"

namespace Layout

/-- A computation within the budget of one question. -/
abbrev Query := StateT Budget (Except LayoutError)

/-- The layout of `count` elements with the layout `base`. The error names the type `id`. -/
def repeated (id : Ident) (shape : Shape) (name : String) (base : Layout) (baseType : String)
    (count : Word) : Except LayoutError Layout :=
  match Word.mul? base.size count with
  | none => .error (.sizeOverflow id)
  | some size => .ok { shape, name, size, baseSize := base.size, baseType, baseCount := count }

/-- The part of a struct that has been laid out: its size and its members so far. -/
structure Block where
  size : Word := 0
  members : Array (Member Layout) := #[]

section

variable {μ : Type → Type} [Monad μ] [Charging μ] [MonadExceptOf LayoutError μ]

/-- Counts the visit of a type. -/
def visit (id : Ident) : StateT Budget μ Unit := fun budget => do
  let budget ← Charging.visit budget
  if budget.overNodes then throw (.tooComplex id) else return ((), budget)

/-- Counts the copy of a member name of a struct. -/
def copyName (id : Ident) (name : String) : StateT Budget μ Unit := fun budget => do
  let budget ← Charging.copyName budget name
  if budget.overNames then throw (.tooComplex id) else return ((), budget)

/-- Lays out the next member of the struct `id`, whose layout `layoutOf` gives. -/
def Block.add (m : ShaderModule) (layoutOf : Ident → StateT Budget μ Layout) (id : Ident)
    (block : Block) (member : Ident) : StateT Budget μ Block := do
  match m.kind? member with
  | none => throw (.unresolvedReference member id)
  | some kind =>
    let layout ← layoutOf member
    let name := (m.memberName? id block.members.size.toUInt32).getD ""
    copyName id name
    match Word.add? block.size layout.size with
    | none => throw (.sizeOverflow id)
    | some size => return { size, members := block.members.push ⟨name, member, kind, layout⟩ }

/-- The layout of the struct `id`, the layouts of whose members `layoutOf` gives. -/
def ofMembers (m : ShaderModule) (layoutOf : Ident → StateT Budget μ Layout) (id : Ident)
    (members : List Ident) : StateT Budget μ Layout := do
  let block ← members.foldlM (Block.add m layoutOf id) {}
  return .struct block.size block.members.toList

variable [MonadLiftT (Except LayoutError) μ]

/-- The layout of the type `id` with a shape, the layouts of whose parts `layoutOf` gives. -/
def ofKind (m : ShaderModule) (layoutOf : Ident → StateT Budget μ Layout) (id : Ident)
    (kind : TypeKind) : StateT Budget μ Layout :=
  match kind with
  | .void => return .scalar kind.displayName 0
  | .bool | .int .. | .float .. => return .scalar kind.displayName 4
  | .vector component count => do
      let base ← layoutOf component
      repeated id .vector "vector" base base.name count
  | .array element length => do
      let base ← layoutOf element
      repeated id .array "array" base base.name (m.arrayLength length)
  | .matrix column columns => do
      let base ← layoutOf column
      repeated id .matrix "matrix" base "vector" columns
  | .struct members => ofMembers m layoutOf id members
  | .pointer .. => throw (.pointerType id)
  | .image type => return .ofImage type
  | .sampler => return .sampler
  | .sampledImage base => return .sampled (← layoutOf base)

/-- The layout of a type that may nest fewer than `levels` levels. An id without a definition has
the undefined layout. -/
def resolve (m : ShaderModule) : (levels : Nat) → Ident → StateT Budget μ Layout
  | 0, id => throw (.tooDeep id)
  | levels + 1, id => do
      visit id
      match m.kind? id with
      | none => return .undefined
      | some kind => ofKind m (resolve m levels) id kind

end

end Layout

namespace ShaderModule

variable (m : ShaderModule)

/-- The layout of a type. -/
def typeLayout (id : Ident) : Except LayoutError Layout :=
  (Layout.resolve m (maxLayoutDepth + 1) id : Layout.Query Layout).run' {}

/-- The type that a variable points to. -/
def pointee (id : Ident) : Except LayoutError Ident :=
  match m.variableAt? id with
  | none => .error (.unknownVariable id)
  | some declared =>
    match m.kind? declared.type with
    | none => .error (.unresolvedReference declared.type id)
    | some (.pointer _ pointee) =>
      if (m.kind? pointee).isNone then .error (.unresolvedReference pointee declared.type)
      else .ok pointee
    | some _ => .error (.notAPointer id declared.type)

/-- The layout of what a variable points to. The pointer itself counts as a level. -/
def variableLayout (id : Ident) : Except LayoutError Layout := do
  (Layout.resolve m maxLayoutDepth (← m.pointee id) : Layout.Query Layout).run' {}

end ShaderModule

end ShaderReflection
