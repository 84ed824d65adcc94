import ShaderReflection.Assembly
import ShaderReflection.Proofs.Module.Pass
import ShaderReflection.Proofs.Module.Refusal

/-!
What holds of a module after every instruction of a pass, also when a later instruction is refused.
Reading makes sure that a declaration is sound before it is added, and adding a sound declaration
keeps the invariant.
-/

namespace ShaderReflection

/-- Whether all entries of a table have a property. -/
def EveryEntry {α : Type} (table : WordMap α) (holds : Word → α → Prop) : Prop :=
  ∀ key value, table[key]? = some value → holds key value

namespace EveryEntry

variable {α : Type} {table : WordMap α} {holds : Word → α → Prop} {key : Word} {value : α}

theorem empty : EveryEntry (∅ : WordMap α) holds := by
  intro key value hentry
  rw [Std.ExtTreeMap.getElem?_empty] at hentry
  cases hentry

theorem insert (h : EveryEntry table holds) (hnew : holds key value) :
    EveryEntry (table.insert key value) holds := by
  intro other held hentry
  rw [getElem?_insert_entry] at hentry
  split_ifs at hentry with hkey
  · obtain rfl := Option.some.inj hentry
    exact hkey ▸ hnew
  · exact h other held hentry

theorem insertIfNew (h : EveryEntry table holds) (hnew : holds key value) :
    EveryEntry (table.insertIfNew key value) holds := by
  intro other held hentry
  rw [getElem?_insertIfNew_entry, Option.or_eq_some_iff] at hentry
  rcases hentry with hold | ⟨-, hentry⟩
  · exact h other held hold
  · split_ifs at hentry with hkey
    obtain rfl := Option.some.inj hentry
    exact hkey ▸ hnew

theorem alter {change : Option α → Option α} (h : EveryEntry table holds)
    (hnew : ∀ held, change table[key]? = some held → holds key held) :
    EveryEntry (table.alter key change) holds := by
  intro other held hentry
  rw [getElem?_alter_entry] at hentry
  split_ifs at hentry with hkey
  · subst hkey
    exact hnew held hentry
  · exact h other held hentry

end EveryEntry

namespace Declaration

/-- The ids that a declaration defines or targets, and those that an entry point lists. -/
def ids : Declaration → List Ident
  | .extInstImport id _ => [id]
  | .entryPoint entry => entry.function :: entry.interface
  | .name target _ => [target]
  | .memberName target _ _ => [target]
  | .decorate target _ => [target]
  | .type declared => [declared.id]
  | .constant declared => [declared.id]
  | .moduleVariable declared => [declared.id]

/-- What reading makes sure of: all ids are allowed, a type is named for its shape, and a constant
has a value. -/
structure Sound (declaration : Declaration) (allowed : Ident → Prop) : Prop where
  ids : ∀ id ∈ declaration.ids, allowed id
  typeName : ∀ declared, declaration = .type declared →
    declared.name = declared.kind.displayName
  value : ∀ declared, declaration = .constant declared → declared.words ≠ []

end Declaration

namespace Recognised

variable {context : Declaration.Context} {i : Recognised}

theorem ids_declaration (names : NameTable) (i : Recognised) :
    (i.declaration names).ids = i.target :: i.interface := by
  obtain ⟨op, insn⟩ := i
  cases op <;> rfl

theorem allowed_of_read {declared : Declaration} (hread : i.read context = .ok declared) :
    ∀ id ∈ i.target :: i.interface, ¬ context.Outside id := by
  obtain ⟨_, -, hread⟩ := bind_eq_ok_iff.mp hread
  obtain ⟨_, htarget, hread⟩ := bind_eq_ok_iff.mp hread
  obtain ⟨_, -, hread⟩ := bind_eq_ok_iff.mp hread
  obtain ⟨_, hinterface, -⟩ := bind_eq_ok_iff.mp hread
  rw [List.forall_mem_cons]
  constructor
  · exact Declaration.Context.checkId_eq_ok_iff.mp htarget
  · exact Declaration.Context.checkIds_eq_ok_iff.mp hinterface

/-- Every operation that declares a type builds it from an id and a shape. -/
theorem name_of_declaration (names : NameTable) {declared : TypeDef}
    (htype : i.declaration names = .type declared) :
    declared.name = declared.kind.displayName := by
  obtain ⟨op, insn⟩ := i
  cases op <;> cases htype <;> rfl

/-- A constant has at least the three operands that are asked of it, the last of which is the first
word of its value. -/
theorem words_ne_nil_of_readable (hreadable : i.Readable) (names : NameTable)
    {declared : Constant} (hconstant : i.declaration names = .constant declared) :
    declared.words ≠ [] := by
  obtain ⟨op, insn⟩ := i
  cases op
  case constant =>
    obtain rfl := Declaration.constant.inj hconstant
    have hcount : 3 ≤ insn.operands.length := hreadable.1
    change insn.operands.drop 2 ≠ []
    rw [Ne, List.drop_eq_nil_iff]
    omega
  all_goals cases hconstant

theorem sound_of_read {declared : Declaration} (hread : i.read context = .ok declared) :
    declared.Sound fun id => ¬ context.Outside id := by
  obtain ⟨hreadable, rfl⟩ := readable_of_read hread
  refine ⟨?_, ?_, ?_⟩
  · rw [ids_declaration]
    exact allowed_of_read hread
  · intro declared htype
    exact name_of_declaration context.names htype
  · intro declared hconstant
    exact words_ne_nil_of_readable hreadable context.names hconstant

end Recognised

theorem Declaration.sound_of_ofInstruction {context : Context} {insn : Instruction}
    {declared : Declaration} (hread : ofInstruction context insn = .ok (some declared)) :
    declared.Sound fun id => ¬ context.Outside id := by
  rw [ofInstruction_eq] at hread
  cases hrecognised : Recognised.ofInstruction? context.names insn with
  | none =>
      rw [hrecognised] at hread
      cases hread
  | some i =>
      rw [hrecognised] at hread
      simp only at hread
      cases hdeclared : i.read context with
      | error error =>
          rw [hdeclared] at hread
          cases hread
      | ok result =>
          rw [hdeclared] at hread
          obtain rfl := Option.some.inj (Except.ok.inj hread)
          exact Recognised.sound_of_read hdeclared

theorem StorageClass.isUniform_iff {storage : StorageClass} :
    storage.isUniform = true ↔ storage = .uniformConstant ∨ storage = .uniform := by
  cases storage <;> simp [isUniform]

namespace ShaderModule

/-- What holds of a module after every instruction of a pass. Tables hold things under their own
ids, which are allowed, and uniform variables are listed once each. -/
structure Invariant (m : ShaderModule) (allowed : Ident → Prop) : Prop where
  names : EveryEntry m.names fun id _ => allowed id
  memberNames : EveryEntry m.memberNames fun id _ => allowed id
  decorations : EveryEntry m.decorations fun id applied => allowed id ∧ applied.toList ≠ []
  types : EveryEntry m.types fun id declared =>
    allowed id ∧ declared.id = id ∧ declared.name = declared.kind.displayName
  constants : EveryEntry m.constants fun id declared =>
    allowed id ∧ declared.id = id ∧ declared.words ≠ []
  moduleVariables : EveryEntry m.moduleVariables fun id declared => allowed id ∧ declared.id = id
  entryPoints : ∀ entry ∈ m.entryPoints.toList, ∀ id ∈ entry.function :: entry.interface,
    allowed id
  uniformDistinct : m.uniformVariables.toList.Nodup
  uniform : ∀ id, id ∈ m.uniformVariables.toList ↔
    ∃ declared, m.moduleVariables[id]? = some declared ∧
      (declared.storage = .uniformConstant ∨ declared.storage = .uniform)

section Steps

variable {m : ShaderModule} {allowed : Ident → Prop}

theorem Invariant.empty (header : Header) : (empty header).Invariant allowed where
  names := .empty
  memberNames := .empty
  decorations := .empty
  types := .empty
  constants := .empty
  moduleVariables := .empty
  entryPoints := by simp [ShaderModule.empty]
  uniformDistinct := List.nodup_nil
  uniform id := by simp [ShaderModule.empty]

/-- A variable whose id is taken changes nothing. Any other is not among the uniform ones yet, since
these are in the table. -/
theorem Invariant.declareVariable (h : m.Invariant allowed) {declared : Variable}
    (hallowed : allowed declared.id) : (m.declareVariable declared).Invariant allowed := by
  unfold ShaderModule.declareVariable
  rw [Std.ExtTreeMap.contains_eq_isSome_getElem?]
  cases hold : m.moduleVariables[declared.id]? with
  | some earlier =>
      rw [Option.isSome_some, if_pos rfl]
      exact h
  | none =>
      rw [Option.isSome_none, if_neg Bool.false_ne_true]
      have hnew : declared.id ∉ m.uniformVariables.toList := by
        rw [h.uniform, hold]
        rintro ⟨_, hsome, -⟩
        cases hsome
      have hlisted : (if declared.storage.isUniform then m.uniformVariables.push declared.id
          else m.uniformVariables).toList =
            m.uniformVariables.toList ++
              if declared.storage.isUniform then [declared.id] else [] := by
        split_ifs
        · exact Array.toList_push
        · exact (List.append_nil _).symm
      exact { h with
        moduleVariables := h.moduleVariables.insert ⟨hallowed, rfl⟩
        uniformDistinct := by
          simp only [hlisted]
          split_ifs
          · rw [← List.concat_eq_append]
            exact h.uniformDistinct.concat hnew
          · rw [List.append_nil]
            exact h.uniformDistinct
        uniform := by
          intro id
          simp only [hlisted, getElem?_insert_entry]
          rw [List.mem_append, h.uniform]
          by_cases hid : declared.id = id
          · subst hid
            rw [hold]
            simp [← StorageClass.isUniform_iff]
          · have hother : id ∉ if declared.storage.isUniform then [declared.id] else [] := by
              split_ifs <;> simp [Ne.symm hid]
            simp [hother, hid] }

theorem Invariant.declare (h : m.Invariant allowed) {declaration : Declaration}
    (hsound : declaration.Sound allowed) : (m.declare declaration).Invariant allowed := by
  have hids := hsound.ids
  cases declaration with
  | extInstImport id set => exact h
  | entryPoint entry =>
      exact { h with
        entryPoints := by
          intro other hother
          rw [ShaderModule.declare, Array.toList_push, List.mem_append,
            List.mem_singleton] at hother
          rcases hother with hother | rfl
          · exact h.entryPoints other hother
          · exact hids }
  | name target text =>
      exact { h with names := h.names.insert (hids target (List.mem_singleton_self _)) }
  | memberName target member text =>
      exact { h with
        memberNames := h.memberNames.alter fun _ _ => hids target (List.mem_singleton_self _) }
  | decorate target decoration =>
      exact { h with
        decorations := h.decorations.alter fun held hheld => by
          obtain rfl := Option.some.inj hheld
          exact ⟨hids target (List.mem_singleton_self _), by simp⟩ }
  | type declared =>
      exact { h with
        types := h.types.insertIfNew
          ⟨hids declared.id (List.mem_singleton_self _), rfl, hsound.typeName declared rfl⟩ }
  | constant declared =>
      exact { h with
        constants := h.constants.insert
          ⟨hids declared.id (List.mem_singleton_self _), rfl, hsound.value declared rfl⟩ }
  | moduleVariable declared =>
      exact h.declareVariable (hids declared.id (List.mem_singleton_self _))

/-- Whether a module has come about from another in that nothing was taken back: what was defined is
still defined the same. -/
structure Extends (m' m : ShaderModule) : Prop where
  header : m'.header = m.header
  types : ∀ id declared, m.type? id = some declared → m'.type? id = some declared
  moduleVariables : ∀ id declared,
    m.variableAt? id = some declared → m'.variableAt? id = some declared

theorem Extends.declare {m' : ShaderModule} (h : m'.Extends m) (declaration : Declaration) :
    (m'.declare declaration).Extends m where
  header := by
    rw [← h.header]
    cases declaration with
    | moduleVariable declared =>
        rw [ShaderModule.declare, declareVariable_eq]
    | _ => rfl
  types id declared htype := by
    rw [type?_declare, h.types id declared htype, Option.some_or]
  moduleVariables id declared hvariable := by
    rw [variableAt?_declare, h.moduleVariables id declared hvariable, Option.some_or]

end Steps

section Passes

variable {context : Declaration.Context} {m m' : ShaderModule} {insns : List Instruction}

theorem Invariant.foldlM_apply (h : m.Invariant fun id => ¬ context.Outside id)
    (hpass : insns.foldlM (apply context) m = .ok m') :
    m'.Invariant fun id => ¬ context.Outside id := by
  refine foldlM_apply_induction
    (motive := fun m => m.Invariant fun id => ¬ context.Outside id) ?_ h hpass
  intro m m' insn h happly
  obtain ⟨declared, hdeclared, rfl⟩ := apply_eq_ok_iff.mp happly
  cases declared with
  | none => exact h
  | some declaration => exact h.declare (Declaration.sound_of_ofInstruction hdeclared)

theorem extends_of_foldlM_apply (hpass : insns.foldlM (apply context) m = .ok m') :
    m'.Extends m := by
  refine foldlM_apply_induction (motive := fun m' => m'.Extends m) ?_ ⟨rfl, ?_, ?_⟩ hpass
  · intro m' m'' insn h happly
    obtain ⟨declared, -, rfl⟩ := apply_eq_ok_iff.mp happly
    cases declared with
    | none => exact h
    | some declaration => exact h.declare declaration
  · intro _ _ h
    exact h
  · intro _ _ h
    exact h

/-- Where the invariant holds, a length operand stands for itself only if it names no constant. -/
theorem Invariant.arrayLength_eq {allowed : Ident → Prop} (h : m.Invariant allowed)
    (length : Word) :
    (∃ declared word, m.constant? length = some declared ∧ declared.words.head? = some word ∧
      m.arrayLength length = word) ∨
    m.constant? length = none ∧ m.arrayLength length = length := by
  unfold arrayLength
  cases hconstant : m.constant? length with
  | none => exact Or.inr ⟨rfl, rfl⟩
  | some declared =>
      obtain ⟨-, -, hwords⟩ := h.constants length declared hconstant
      obtain ⟨word, words, hvalue⟩ := List.exists_cons_of_ne_nil hwords
      have hhead : declared.words.head? = some word := by rw [hvalue, List.head?_cons]
      refine Or.inl ⟨declared, word, rfl, hhead, ?_⟩
      rw [Option.bind_some, Constant.value?, hhead, Option.getD_some]

/-- An instruction decorates an id exactly if it is a decoration that targets the id. -/
theorem decorated?_declaration (names : NameTable) (i : Recognised) (id : Ident) :
    (∀ entry, (i.declaration names).decorated? = some entry → entry.1 ≠ id) ↔
      (i.op = .decorate → i.target ≠ id) := by
  obtain ⟨op, insn⟩ := i
  cases op <;> simp [Recognised.declaration, Declaration.decorated?, Recognised.target]

theorem isBuiltin_iff_of_pass {header : Header}
    (hpass : insns.foldlM (apply context) (empty header) = .ok m) (id : Ident) :
    m.isBuiltin id = true ↔
      ∀ i ∈ insns.filterMap (Recognised.ofInstruction? context.names),
        i.op = .decorate → i.target ≠ id := by
  rw [ShaderModule.foldlM_apply] at hpass
  cases hdeclared : insns.filterMapM (Declaration.ofInstruction context) with
  | error error =>
      rw [hdeclared] at hpass
      cases hpass
  | ok declared =>
      rw [hdeclared] at hpass
      obtain rfl := Except.ok.inj hpass
      obtain ⟨-, rfl⟩ := Declaration.filterMapM_ofInstruction hdeclared
      have hdecorations := (ofDeclarations_records header
        ((insns.filterMap (Recognised.ofInstruction? context.names)).map
          (·.declaration context.names))).decorations id
      rw [ofDeclarations] at hdecorations
      rw [isBuiltin, List.isEmpty_iff, hdecorations, allUnder_eq_nil_iff, List.filterMap_map]
      generalize insns.filterMap (Recognised.ofInstruction? context.names) = recognised
      simp only [List.forall_mem_filterMap, Function.comp_apply]
      refine forall₂_congr fun i _ => ?_
      exact decorated?_declaration context.names i id

end Passes

/-- Whether a pass over a stream has built a module when it has applied the given instructions. -/
def Reached (names : NameTable) (options : ParseOptions) (words : List Word)
    (applied : List Instruction) (m : ShaderModule) : Prop :=
  applied <+: (scan words).1 ∧ ∃ header, parseHeader options words = .ok header ∧
    applied.foldlM (apply ⟨names, header.bound, options.checkIdBound⟩) (empty header) = .ok m

section Reached

variable {names : NameTable} {options : ParseOptions} {words : List Word}
  {applied : List Instruction} {m : ShaderModule}

theorem reached_of_parse (hparsed : parse names options words = .ok m) :
    Reached names options words (scan words).1 m := by
  rw [parse_eq_pass] at hparsed
  obtain ⟨header, hheader, hparsed⟩ := bind_eq_ok_iff.mp hparsed
  obtain ⟨built, hbuilt, hending⟩ := bind_eq_ok_iff.mp hparsed
  refine ⟨List.prefix_rfl, header, hheader, ?_⟩
  cases hfault : (scan words).2 with
  | none =>
      rw [hfault] at hending
      obtain rfl := Except.ok.inj hending
      exact hbuilt
  | some error =>
      rw [hfault] at hending
      cases hending

theorem invariant_of_reached (hreached : Reached names options words applied m) :
    m.Invariant fun id => options.checkIdBound = true → id < m.header.bound := by
  obtain ⟨-, header, -, hpass⟩ := hreached
  have hinvariant := (Invariant.empty header).foldlM_apply hpass
  have hheader : m.header = header := (extends_of_foldlM_apply hpass).header
  simpa only [hheader, Declaration.Context.Outside, not_and, UInt32.not_le] using hinvariant

theorem reached_of_prefix {further : List Instruction}
    (hreached : Reached names options words (applied ++ further) m) :
    ∃ earlier, Reached names options words applied earlier := by
  obtain ⟨hinitial, header, hheader, hpass⟩ := hreached
  rw [List.foldlM_append] at hpass
  obtain ⟨earlier, hearlier, -⟩ := bind_eq_ok_iff.mp hpass
  exact ⟨earlier, (List.prefix_append _ _).trans hinitial, header, hheader, hearlier⟩

/-- A pass that has got further extends what it has built before. -/
theorem extends_of_reached {further : List Instruction} {m' : ShaderModule}
    (hreached : Reached names options words applied m)
    (hlater : Reached names options words (applied ++ further) m') : m'.Extends m := by
  obtain ⟨-, header, hheader, hpass⟩ := hreached
  obtain ⟨-, other, hother, hlater⟩ := hlater
  obtain rfl := Except.ok.inj (hheader.symm.trans hother)
  rw [List.foldlM_append, hpass, ok_bind] at hlater
  exact extends_of_foldlM_apply hlater

end Reached

/-- A pass that ends well has built a module after every instruction, the last of which is the one
that was read. Every module that a pass builds, whether or not it ends well, satisfies the invariant
and is extended by all later ones. -/
theorem reached_modules_invariant (names : NameTable) (options : ParseOptions)
    (words : List Word) :
    (∀ m, parse names options words = .ok m →
      Reached names options words (scan words).1 m ∧
      ∀ applied, applied <+: (scan words).1 → ∃ m', Reached names options words applied m') ∧
    ∀ applied m, Reached names options words applied m →
      m.Invariant (fun id => options.checkIdBound = true → id < m.header.bound) ∧
      (∀ length,
        (∃ declared word, m.constant? length = some declared ∧
          declared.words.head? = some word ∧ m.arrayLength length = word) ∨
        m.constant? length = none ∧ m.arrayLength length = length) ∧
      (∀ id, m.isBuiltin id = true ↔
        ∀ i ∈ applied.filterMap (Recognised.ofInstruction? names),
          i.op = .decorate → i.target ≠ id) ∧
      ∀ further m', Reached names options words (applied ++ further) m' → m'.Extends m := by
  constructor
  · intro m hparsed
    refine ⟨reached_of_parse hparsed, ?_⟩
    rintro applied ⟨further, hwhole⟩
    have hreached := reached_of_parse hparsed
    rw [← hwhole] at hreached
    exact reached_of_prefix hreached
  · intro applied m hreached
    have hinvariant := invariant_of_reached hreached
    refine ⟨hinvariant, hinvariant.arrayLength_eq, ?_, ?_⟩
    · obtain ⟨-, header, -, hpass⟩ := hreached
      exact isBuiltin_iff_of_pass hpass
    · intro further m' hlater
      exact extends_of_reached hreached hlater

/-- A pass that is refused at its last instruction, an id at the bound. Before that a uniform
variable is declared again with another class. -/
theorem reached_modules_invariant_before_refusal :
    let words := (Assembly.ofStatements
      [.bound 9, .decorate 7 33 [1], .typeFloat 2 32, .typePointer 3 2 2, .constant 2 5 4,
        .moduleVariable 3 7 2, .moduleVariable 3 7 1, .typeVoid 9]).words
    let applied := (scan words).1.take 6
    (parse .core {} words).isOk = false ∧ ∃ m, Reached .core {} words applied m ∧
      m.Invariant (fun id => ({} : ParseOptions).checkIdBound = true → id < m.header.bound) ∧
      m.uniformVariables.toList = [7] ∧ m.isBuiltin 3 = true := by
  intro words applied
  have hrefused : (parse .core {} words).isOk = false := by decide +kernel
  have hheader : parseHeader {} words = .ok ⟨magicNumber, 0x10000, 0, 9, 0⟩ := by decide +kernel
  have hok : (applied.foldlM (apply ⟨.core, 9, true⟩)
      (empty ⟨magicNumber, 0x10000, 0, 9, 0⟩)).isOk = true := by decide +kernel
  have huniform : (applied.foldlM (apply ⟨.core, 9, true⟩)
      (empty ⟨magicNumber, 0x10000, 0, 9, 0⟩)).toOption.map (·.uniformVariables.toList) =
        some [7] := by decide +kernel
  have hplain : ∀ i ∈ applied.filterMap (Recognised.ofInstruction? .core),
      i.op = .decorate → i.target ≠ 3 := by decide +kernel
  obtain ⟨m, hpass⟩ := exists_of_isOk hok
  rw [hpass] at huniform
  have hreached : Reached .core {} words applied m :=
    ⟨List.take_prefix 6 (scan words).1, _, hheader, hpass⟩
  obtain ⟨hinvariant, -, hbuiltin, -⟩ :=
    (reached_modules_invariant .core {} words).2 applied m hreached
  exact ⟨hrefused, m, hreached, hinvariant, Option.some.inj huniform, (hbuiltin 3).mpr hplain⟩

end ShaderModule

end ShaderReflection
