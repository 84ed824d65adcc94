import ShaderReflection.Proofs.Descriptor
import ShaderReflection.Proofs.Interface

/-!
Which decoration counts when an id is decorated with one kind several times. What is asked for by
kind comes from the last one, and so do the set and the binding of a descriptor. The location of an
interface variable comes from the first one, so the two rules part where the arguments differ.
-/

namespace ShaderReflection

namespace Recognised

/-- Whether an instruction decorates an id with a kind. -/
def decorates (id : Ident) (kind : Word) (i : Recognised) : Bool :=
  i.op == .decorate && i.operand 0 == id && i.operand 1 == kind

/-- The arguments of a decorating instruction, which follow the id and the kind. -/
def args (i : Recognised) : List Word := i.insn.operands.drop 2

/-- The decoration that a decorating instruction applies. -/
def decoration (names : NameTable) (i : Recognised) : Decoration where
  kind := i.operand 1
  name := names.decorationName (i.operand 1)
  args := i.args

end Recognised

section Stream

variable (names : NameTable) (words : List Word) (id : Ident) (kind : Word)

/-- The instructions of a stream that decorate an id with a kind, in order. -/
def decorating : List Recognised := (recognised names words).filter (·.decorates id kind)

/-- The first argument of the first instruction that decorates an id with a kind. -/
def firstArgument : Option Word := (decorating names words id kind).head?.bind (·.args.head?)

/-- The first argument of the last instruction that decorates an id with a kind. -/
def lastArgument : Option Word := (decorating names words id kind).getLast?.bind (·.args.head?)

theorem firstArgument_eq_lastArgument_iff :
    firstArgument names words id kind = lastArgument names words id kind ↔
      ∀ first ∈ (decorating names words id kind).head?,
        ∀ last ∈ (decorating names words id kind).getLast?, first.args.head? = last.args.head? := by
  unfold firstArgument lastArgument
  cases decorating names words id kind with
  | nil => simp
  | cons first rest => simp [List.getLast?_cons]

end Stream

namespace ShaderModule

/-- Which of the instructions of a stream each reader of decorations goes by. -/
structure ReadsDecorations (m : ShaderModule) (names : NameTable) (words : List Word) : Prop where
  args : ∀ id kind,
    m.decorationArgs? id kind = (decorating names words id kind).getLast?.map (·.args)
  value : ∀ id kind, m.decorationValue? id kind = lastArgument names words id kind
  descriptors : ∀ descriptor ∈ m.descriptors,
    descriptor.set = lastArgument names words descriptor.variableId setDecoration ∧
    descriptor.binding = lastArgument names words descriptor.variableId bindingDecoration
  location : ∀ id, m.location? id = firstArgument names words id locationDecoration
  interfaces : ∀ (shown : NameTable) (interface : EntryInterface),
    interface ∈ m.entryInterfaces shown → ∀ described ∈ interface.inputs ++ interface.outputs,
      described.location = firstArgument names words described.id locationDecoration
  layouts : ∀ layout ∈ m.entryLayouts, ∀ location input, layout.inputs[location]? = some input →
    firstArgument names words input.variableId locationDecoration = some location
  /-- The location follows the rule of the other readers exactly if the first and the last location
  decoration give the same first argument, as they do when there is only one. -/
  agree : ∀ id, m.location? id = m.decorationValue? id locationDecoration ↔
    ∀ first ∈ (decorating names words id locationDecoration).head?,
      ∀ last ∈ (decorating names words id locationDecoration).getLast?,
        first.args.head? = last.args.head?

section Lists

variable (names : NameTable) (id : Ident) (kind : Word)

theorem filter_decorated_declaration (i : Recognised) :
    (allUnder id (i.declaration names).decorated?.toList).filter (·.kind == kind) =
      if i.decorates id kind then [i.decoration names] else [] := by
  obtain ⟨op, insn⟩ := i
  cases op with
  | decorate =>
      simp only [Recognised.declaration, Declaration.decorated?, Option.toList_some,
        allUnder_singleton]
      by_cases htarget : (Recognised.mk .decorate insn).operand 0 = id
      · simp [Recognised.decorates, Recognised.decoration, Recognised.args, htarget,
          List.filter_cons]
      · simp [Recognised.decorates, htarget]
  | _ => rfl

theorem filter_decorated (is : List Recognised) :
    (allUnder id ((is.map (·.declaration names)).filterMap Declaration.decorated?)).filter
        (·.kind == kind) =
      (is.filter (·.decorates id kind)).map (·.decoration names) := by
  induction is with
  | nil => rfl
  | cons i rest ih =>
      rw [List.map_cons, filterMap_cons_eq, allUnder_append, List.filter_append,
        filter_decorated_declaration, ih, List.filter_cons]
      split_ifs <;> rfl

end Lists

theorem location?_eq (m : ShaderModule) (id : Ident) :
    m.location? id =
      ((m.decorationsOf id).filter (·.kind == locationDecoration)).head?.bind (·.args.head?) := by
  rw [location?, List.head?_filter]

section Parsed

variable {names : NameTable} {options : ParseOptions} {words : List Word} {m : ShaderModule}

/-- The decorations of a kind that an id has are those of the instructions that decorate it with the
kind. -/
theorem filter_decorationsOf (hparsed : parse names options words = .ok m) (id : Ident)
    (kind : Word) :
    (m.decorationsOf id).filter (·.kind == kind) =
      (decorating names words id kind).map (·.decoration names) := by
  rw [(records_of_parse hparsed).decorations, filter_decorated]
  rfl

theorem decorationValue?_of_parse (hparsed : parse names options words = .ok m) (id : Ident)
    (kind : Word) : m.decorationValue? id kind = lastArgument names words id kind := by
  rw [decorationValue?_eq, filter_decorationsOf hparsed, List.getLast?_map, Option.bind_map]
  rfl

theorem location?_of_parse (hparsed : parse names options words = .ok m) (id : Ident) :
    m.location? id = firstArgument names words id locationDecoration := by
  rw [location?_eq, filter_decorationsOf hparsed, List.head?_map, Option.bind_map]
  rfl

end Parsed

/-- What is asked for by kind, sets and bindings come from the last instruction that decorates an id
with a kind, and locations from the first one. -/
theorem decorations_read_from_either_end {names : NameTable} {options : ParseOptions}
    {words : List Word} {m : ShaderModule} (hparsed : parse names options words = .ok m) :
    m.ReadsDecorations names words where
  args := by
    intro id kind
    rw [decorationArgs?_eq, filter_decorationsOf hparsed, List.getLast?_map, Option.map_map]
    rfl
  value := decorationValue?_of_parse hparsed
  descriptors := by
    intro descriptor hmem
    have hdescriptor := eq_descriptor_of_mem m hmem
    constructor
    · exact (congrArg Descriptor.set hdescriptor).trans (decorationValue?_of_parse hparsed _ _)
    · exact (congrArg Descriptor.binding hdescriptor).trans (decorationValue?_of_parse hparsed _ _)
  location := location?_of_parse hparsed
  interfaces := by
    intro shown interface hinterface described hdescribed
    obtain ⟨entry, -, rfl⟩ := List.mem_map.mp hinterface
    have hviews := m.viewsAgree_of_entryPoint shown entry
    rw [(hviews.described described hdescribed).2]
    exact location?_of_parse hparsed described.id
  layouts := by
    intro layout hlayout location input hinput
    rw [← location?_of_parse hparsed]
    exact (m.input_eq_of_entryLayouts hlayout hinput).1
  agree := by
    intro id
    rw [location?_of_parse hparsed, decorationValue?_of_parse hparsed]
    exact firstArgument_eq_lastArgument_iff names words id locationDecoration

/-- An input whose first and last locations are the same although one between them is another, and a
uniform variable that is given a set twice and a binding without an argument in the end. -/
theorem decorations_read_from_either_end_returning_location :
    let words := (Assembly.ofStatements
      [.entryPoint 0 1 "main" [20], .decorate 20 30 [1], .decorate 20 30 [5], .decorate 20 30 [1],
        .decorate 7 34 [3], .decorate 7 33 [9], .decorate 7 34 [0], .decorate 7 33 [],
        .typeFloat 2 32, .typePointer 3 1 2, .typePointer 6 2 2, .moduleVariable 3 20 1,
        .moduleVariable 6 7 2]).words
    ∃ m, parse .core {} words = .ok m ∧
      m.location? 20 = some 1 ∧ m.location? 20 = m.decorationValue? 20 locationDecoration ∧
      m.decorationValue? 7 setDecoration = some 0 ∧ m.decorationValue? 7 bindingDecoration = none ∧
      ∀ descriptor ∈ m.descriptors,
        descriptor.set = lastArgument .core words descriptor.variableId setDecoration := by
  intro words
  have hok : (parse .core {} words).isOk = true := by decide +kernel
  have hfirst : firstArgument .core words 20 locationDecoration = some 1 := by decide +kernel
  have hlast : lastArgument .core words 20 locationDecoration = some 1 := by decide +kernel
  have hset : lastArgument .core words 7 setDecoration = some 0 := by decide +kernel
  have hbinding : lastArgument .core words 7 bindingDecoration = none := by decide +kernel
  obtain ⟨m, hparsed⟩ := exists_of_isOk hok
  have hreads := decorations_read_from_either_end hparsed
  have hends := (firstArgument_eq_lastArgument_iff _ _ _ _).mp (hfirst.trans hlast.symm)
  exact ⟨m, hparsed, (hreads.location 20).trans hfirst, (hreads.agree 20).mpr hends,
    (hreads.value 7 setDecoration).trans hset, (hreads.value 7 bindingDecoration).trans hbinding,
    fun descriptor hmem => (hreads.descriptors descriptor hmem).1⟩

/-- The location of an input need not be the one that its last decoration gives: of the locations 1
and 2 the first is taken, and one without an argument hides the location 5 after it. So the table of
inputs has location 1 alone. -/
theorem location_not_from_last_decoration :
    let words := (Assembly.ofStatements
      [.entryPoint 0 1 "main" [20, 21], .decorate 20 30 [1], .decorate 20 30 [2],
        .decorate 21 30 [], .decorate 21 30 [5], .typeFloat 2 32, .typePointer 3 1 2,
        .moduleVariable 3 20 1, .moduleVariable 3 21 1]).words
    ∃ m, parse .core {} words = .ok m ∧
      m.location? 20 = some 1 ∧ m.decorationValue? 20 locationDecoration = some 2 ∧
      m.location? 21 = none ∧ m.decorationValue? 21 locationDecoration = some 5 ∧
      m.entryLayouts.map (·.inputs.keys) = [[1]] := by
  intro words
  have hok : (parse .core {} words).isOk = true := by decide +kernel
  have hfacts : (parse .core {} words).toOption.map (fun m =>
      (m.location? 20, m.decorationValue? 20 locationDecoration, m.location? 21,
        m.decorationValue? 21 locationDecoration)) = some (some 1, some 2, none, some 5) := by
    decide +kernel
  have hkeys : (parse .core {} words).toOption.map (fun m =>
      m.entryLayouts.map (·.inputs.keys)) = some [[1]] := by
    decide +kernel
  obtain ⟨m, hparsed⟩ := exists_of_isOk hok
  rw [hparsed] at hfacts hkeys
  simp only [Except.toOption, Option.map_some, Option.some.injEq, Prod.mk.injEq] at hfacts
  obtain ⟨hfirst, hlast, hhidden, hshown⟩ := hfacts
  exact ⟨m, hparsed, hfirst, hlast, hhidden, hshown, Option.some.inj hkeys⟩

end ShaderModule

end ShaderReflection
