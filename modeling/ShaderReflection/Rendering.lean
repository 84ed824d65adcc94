import ShaderReflection.ShaderModule

/-!
Types, variables and decorations as text. A type that contains itself is shown as a cycle where it
repeats, and a type that is too large for the layout limits is cut off with three dots. How a budget
is charged is left to the monad below it.
-/

namespace ShaderReflection

namespace Rendering

/-- A rendering within the budget of one question. -/
abbrev Session := StateM Budget

/-- What stands for a part that is left out. -/
def ellipsis : String := "..."

section

variable {μ : Type → Type} [Monad μ] [Charging μ]

/-- Counts the visit of a type below the types `path`. Gives the text that stands for the type, if
it is not to be looked into. -/
def enter (path : List Ident) (id : Ident) : StateT Budget μ (Option String) := fun budget => do
  let budget ← Charging.visit budget
  if budget.overNodes then return (some ellipsis, budget)
  else if path.contains id then return (some s!"<cycle %{id}>", budget)
  else return (none, budget)

/-- Counts the copy of a member name. -/
def takeName (name : String) : StateT Budget μ Unit := fun budget => do
  return ((), ← Charging.copyName budget name)

/-- The texts of members of the struct `id`, beginning with the member numbered `index`, after the
texts `done`, which are held last text first. A member is its type, which `print` renders, and its
name, if it has one. Once the budget is used up, an ellipsis stands for the members left. -/
def members (m : ShaderModule) (print : Ident → StateT Budget μ String) (id : Ident) :
    (index : Nat) → (done : List String) → List Ident → StateT Budget μ (List String)
  | _, done, [] => return done.reverse
  | index, done, member :: rest => do
      if (← get).isExhausted then return (ellipsis :: done).reverse
      let type ← print member
      let name := (m.memberName? id index.toUInt32).getD ""
      if name.isEmpty then members m print id (index + 1) (type :: done) rest
      else
        takeName name
        if (← get).overNames then return (ellipsis :: done).reverse
        members m print id (index + 1) ((type ++ " " ++ name) :: done) rest

/-- The text of the type `id` with a shape, whose parts `print` renders. -/
def ofKind (m : ShaderModule) (print : Ident → StateT Budget μ String) (id : Ident)
    (kind : TypeKind) : StateT Budget μ String :=
  match kind with
  | .void | .bool | .int .. | .float .. | .sampler => return kind.displayName
  | .pointer _ pointee => return "*" ++ (← print pointee)
  | .vector component count => do
      let text ← print component
      return s!"vec<{text}, {count}>"
  | .array element length => do
      let text ← print element
      let count := m.arrayLength length
      return s!"{text}[{count}]"
  | .matrix column columns => do
      let text ← print column
      return s!"mat<{text}, {columns}>"
  | .struct ids => do
      let texts ← members m print id 0 [] ids
      return "\x7b " ++ ",".intercalate texts ++ " \x7d"
  | .image type => return "Image" ++ type.dim.text ++ (if type.arrayed then "Array" else "")
  | .sampledImage image => do
      let text ← print image
      return s!"SampledImage<{text}>"

/-- The text of a type below the types `path`, which may nest fewer than `levels` levels. -/
def render (m : ShaderModule) :
    (levels : Nat) → (path : List Ident) → Ident → StateT Budget μ String
  | 0, path, id => return (← enter path id).getD ellipsis
  | levels + 1, path, id => do
      match ← enter path id with
      | some text => return text
      | none =>
        match m.kind? id with
        | none => return "<unknown type>"
        | some kind => ofKind m (render m levels (id :: path)) id kind

end

end Rendering

/-- The text of a decoration: its mnemonic and its arguments. A mnemonic that was not known when
the module was read is looked up in `names`. -/
def Decoration.text (names : NameTable) (decoration : Decoration) : String :=
  let mnemonic := match decoration.name with
    | some mnemonic => mnemonic
    | none => (names.decorationName decoration.kind).getD s!"Decoration({decoration.kind})"
  " ".intercalate (mnemonic :: decoration.args.map toString)

namespace ShaderModule

variable (m : ShaderModule)

/-- The text of a type. -/
def typeText (id : Ident) : String :=
  let session : Rendering.Session String := Rendering.render m (maxLayoutDepth + 1) [] id
  (session.run {}).run.1

/-- The text of a variable: its type, after `in` or `out` if it is part of an interface. -/
def variableText (id : Ident) : String :=
  match m.variableAt? id with
  | none => "<unknown variable>"
  | some declared =>
    let text := m.typeText declared.type
    match declared.storage with
    | .input => "in " ++ text
    | .output => "out " ++ text
    | _ => text

/-- The text of an id's decorations. -/
def decorationsText (names : NameTable) (id : Ident) : String :=
  match m.decorationsOf id with
  | [] => "<no decorations>"
  | decorations => ", ".intercalate (decorations.map (·.text names))

end ShaderModule

end ShaderReflection
