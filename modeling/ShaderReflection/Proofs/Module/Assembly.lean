import ShaderReflection.Assembly
import ShaderReflection.Proofs.Module.Refusal
import ShaderReflection.Proofs.Stream.Writing

/-!
Reading what was written. A walk over a written module gives one instruction for each step that
writes one, and if the steps keep to what a reader checks, the module records exactly what they were
told to write.
-/

namespace ShaderReflection

namespace Statement

/-- The bound that a step sets, if it sets one. -/
def bound? : Statement → Option Word
  | .bound limit => some limit
  | _ => none

/-- The texts that a step packs into words. -/
def texts : Statement → List String
  | extInstImport _ set => [set]
  | entryPoint _ _ text _ => [text]
  | name _ text => [text]
  | memberName _ _ text => [text]
  | _ => []

/-- The ids of a step that a reader holds against the bound. -/
def checkedIds : Statement → List Ident
  | bound _ | raw _ _ | capability _ | memoryModel _ _ => []
  | entryPoint _ function _ interface => function :: interface
  | extInstImport id _ | name id _ | memberName id _ _ | decorate id _ _ => [id]
  | typeVoid id | typeBool id | typeInt id _ _ | typeFloat id _ | typeVector id _ _
  | typeMatrix id _ _ | typeArray id _ _ | typeStruct id _ | typePointer id _ _
  | typeImage id _ _ _ | typeSampler id | typeSampledImage id _ => [id]
  | constant _ id _ | moduleVariable _ id _ => [id]

/-- What a step is meant to declare, in terms of its arguments. -/
def declaration? (names : NameTable) : Statement → Option Declaration
  | bound _ | raw _ _ | capability _ | memoryModel _ _ => none
  | extInstImport id set => some (.extInstImport id set)
  | entryPoint model function text interface =>
      some (.entryPoint { name := text, function, model := .ofWord model, interface })
  | name target text => some (.name target text)
  | memberName target member text => some (.memberName target member text)
  | decorate target kind args =>
      some (.decorate target { kind, name := names.decorationName kind, args })
  | typeVoid id => some (.type (.ofKind id .void))
  | typeBool id => some (.type (.ofKind id .bool))
  | typeInt id width signed => some (.type (.ofKind id (.int width signed)))
  | typeFloat id width => some (.type (.ofKind id (.float width)))
  | typeVector id component count => some (.type (.ofKind id (.vector component count)))
  | typeMatrix id column columns => some (.type (.ofKind id (.matrix column columns)))
  | typeArray id element length => some (.type (.ofKind id (.array element length)))
  | typeStruct id members => some (.type (.ofKind id (.struct members)))
  | typePointer id storage pointee => some (.type (.ofKind id (.pointer (.ofWord storage) pointee)))
  | typeImage id sampledType dim arrayed =>
      some (.type (.ofKind id (.image
        { sampledType, dim := .ofWord dim, depth := 0, arrayed, multisampled := false,
          sampled := 1, format := 0 })))
  | typeSampler id => some (.type (.ofKind id .sampler))
  | typeSampledImage id image => some (.type (.ofKind id (.sampledImage image)))
  | constant type id value => some (.constant { id, type, words := [value] })
  | moduleVariable type id storage =>
      some (.moduleVariable { id, type, storage := .ofWord storage })

/-- The operation whose instruction a step writes, unless the step gives an opcode itself or writes
an instruction that declares nothing. -/
def operation? : Statement → Option Operation
  | bound _ | raw _ _ | capability _ | memoryModel _ _ => none
  | extInstImport _ _ => some .extInstImport
  | entryPoint _ _ _ _ => some .entryPoint
  | name _ _ => some .name
  | memberName _ _ _ => some .memberName
  | decorate _ _ _ => some .decorate
  | typeVoid _ => some .typeVoid
  | typeBool _ => some .typeBool
  | typeInt _ _ _ => some .typeInt
  | typeFloat _ _ => some .typeFloat
  | typeVector _ _ _ => some .typeVector
  | typeMatrix _ _ _ => some .typeMatrix
  | typeArray _ _ _ => some .typeArray
  | typeStruct _ _ => some .typeStruct
  | typePointer _ _ _ => some .typePointer
  | typeImage _ _ _ _ => some .typeImage
  | typeSampler _ => some .typeSampler
  | typeSampledImage _ _ => some .typeSampledImage
  | constant _ _ _ => some .constant
  | moduleVariable _ _ _ => some .moduleVariable

/-- The opcode that a step gives as a number, if it gives one. -/
def rawOpcode? : Statement → Option UInt16
  | raw opcode _ => some opcode
  | _ => none

/-- Whether a reader with a name table and a bound accepts what a step writes and takes it for what
the step is meant to declare: its texts do not end early, its checked ids are below the bound, and
an opcode given as a number declares nothing. -/
structure Faithful (names : NameTable) (bound : Word) (statement : Statement) : Prop where
  texts : ∀ text ∈ statement.texts, '\x00' ∉ text.toList
  checkedIds : ∀ id ∈ statement.checkedIds, id < bound
  raw : ∀ opcode ∈ statement.rawOpcode?,
    (names.opcodeName opcode).bind Operation.ofMnemonic? = none

/-- The three conditions as tests on lists. A quantifier over words could also be decided by trying
every word. -/
theorem faithful_iff {names : NameTable} {bound : Word} {statement : Statement} :
    statement.Faithful names bound ↔
      (statement.texts.all fun text => !text.toList.contains '\x00') = true ∧
      (statement.checkedIds.all fun id => decide (id < bound)) = true ∧
      (statement.rawOpcode?.all fun opcode =>
        ((names.opcodeName opcode).bind Operation.ofMnemonic?).isNone) = true := by
  have hopcodes : (statement.rawOpcode?.all fun opcode =>
      ((names.opcodeName opcode).bind Operation.ofMnemonic?).isNone) = true ↔
        ∀ opcode ∈ statement.rawOpcode?,
          (names.opcodeName opcode).bind Operation.ofMnemonic? = none := by
    cases statement.rawOpcode? <;> simp
  rw [hopcodes]
  simp only [List.all_eq_true, Bool.not_eq_true', List.contains_eq_mem, decide_eq_false_iff_not,
    decide_eq_true_eq]
  constructor
  · intro h
    exact ⟨h.texts, h.checkedIds, h.raw⟩
  · rintro ⟨htexts, hids, hraw⟩
    exact ⟨htexts, hids, hraw⟩

instance (names : NameTable) (bound : Word) (statement : Statement) :
    Decidable (statement.Faithful names bound) :=
  decidable_of_iff _ faithful_iff.symm

theorem instruction?_eq_none_iff {statement : Statement} :
    statement.instruction? = none ↔ statement.bound?.isNone = false := by
  cases statement <;> simp [instruction?, bound?]

theorem flag_ne_zero (value : Bool) : (flag value != 0) = value := by cases value <;> rfl

end Statement

/-- The built-in table knows every operation under the number of its opcode. -/
theorem Operation.core_opcode (op : Operation) :
    (NameTable.core.opcodeName op.opcode).bind ofMnemonic? = some op := by
  cases op <;> decide +kernel

section Packed

variable (op : Operation) (place : Nat) (opcode : UInt16) {text : String}
variable (hclean : '\x00' ∉ text.toList)

include hclean

theorem Recognised.literal_packed (before after : List Word) :
    (Recognised.mk op ⟨place, opcode, before ++ (Literal.encode text ++ after)⟩).literal
      before.length = (text, before.length + (Literal.encode text).length) := by
  unfold Recognised.literal
  rw [Literal.decode?_encode hclean]
  rfl

theorem Recognised.literal_packed_last (before : List Word) :
    (Recognised.mk op ⟨place, opcode, before ++ Literal.encode text⟩).literal before.length =
      (text, before.length + (Literal.encode text).length) := by
  have hliteral := literal_packed op place opcode hclean before []
  rwa [List.append_nil] at hliteral

theorem Recognised.literal_packed_interface (model : Word) (function : Ident)
    (interface : List Ident) :
    (Recognised.mk op
      ⟨place, opcode, model :: function :: (Literal.encode text ++ interface)⟩).literal 2 =
        (text, 2 + (Literal.encode text).length) :=
  literal_packed op place opcode hclean [model, function] interface

theorem Recognised.interface_packed (model : Word) (function : Ident) (interface : List Ident) :
    (Recognised.mk .entryPoint
      ⟨place, opcode, model :: function :: (Literal.encode text ++ interface)⟩).interface =
        interface := by
  have hsplit : model :: function :: (Literal.encode text ++ interface) =
      ([model, function] ++ Literal.encode text) ++ interface := rfl
  simp only [Recognised.interface]
  rw [literal_packed_interface .entryPoint place opcode hclean, hsplit]
  exact List.drop_left' List.length_append

end Packed

/-- What the built-in table's operations read, if it passes the checks. -/
theorem Declaration.ofInstruction_of_checks {limit : Word} (op : Operation) {insn : Instruction}
    (hopcode : insn.opcode = op.opcode) (hcount : (Recognised.mk op insn).HasOperands)
    (htarget : (Recognised.mk op insn).target < limit)
    (hends : (Recognised.mk op insn).LiteralEnds)
    (hinterface : ∀ id ∈ (Recognised.mk op insn).interface, id < limit) :
    ofInstruction ⟨.core, limit, true⟩ insn =
      .ok (some ((Recognised.mk op insn).declaration .core)) := by
  have hinside : ∀ id, id < limit → ¬ Context.Outside ⟨.core, limit, true⟩ id := by
    rintro id hid ⟨-, houtside⟩
    exact UInt32.not_le.mpr hid houtside
  have hread : (Recognised.mk op insn).read ⟨.core, limit, true⟩ =
      .ok ((Recognised.mk op insn).declaration .core) :=
    Recognised.read_of_checks hcount (hinside _ htarget) hends
      fun id hid => hinside id (hinterface id hid)
  have hrecognised : Recognised.ofInstruction? .core insn = some ⟨op, insn⟩ := by
    rw [Recognised.ofInstruction?, hopcode, op.core_opcode]
    rfl
  rw [ofInstruction_eq, hrecognised]
  simp only [hread]
  rfl

namespace Statement

section Written

variable {statement : Statement} {op : Operation} {opcode : UInt16} {operands : List Word}
variable (hop : statement.operation? = some op)
variable (hwritten : statement.instruction? = some (opcode, operands)) (place : Nat)

include hop hwritten

theorem opcode_written : opcode = op.opcode := by
  cases statement <;> cases hop <;> cases hwritten <;> rfl

theorem hasOperands_written : (Recognised.mk op ⟨place, opcode, operands⟩).HasOperands := by
  have hliteral := Literal.length_encode
  unfold Recognised.HasOperands
  cases statement <;> cases hop <;> cases hwritten
  all_goals
    simp only [Operation.minOperands, List.length_cons, List.length_nil, List.length_append,
      hliteral]
    omega

theorem target_written :
    (Recognised.mk op ⟨place, opcode, operands⟩).target ∈ statement.checkedIds := by
  cases statement <;> cases hop <;> cases hwritten <;> exact List.mem_cons_self

theorem literalEnds_written : (Recognised.mk op ⟨place, opcode, operands⟩).LiteralEnds := by
  have hends := fun text before => Literal.ends_encode text before []
  simp only [List.append_nil] at hends
  intro start hstart
  cases statement <;> cases hop <;> cases hwritten <;> cases hstart
  case extInstImport id set => exact hends set [id]
  case name target text => exact hends text [target]
  case memberName target member text => exact hends text [target, member]
  case entryPoint model function text interface =>
    exact Literal.ends_encode text [model, function] interface

variable (hclean : ∀ text ∈ statement.texts, '\x00' ∉ text.toList)

include hclean

theorem interface_written :
    (Recognised.mk op ⟨place, opcode, operands⟩).interface ⊆ statement.checkedIds := by
  cases statement <;> cases hop <;> cases hwritten
  case entryPoint model function text interface =>
    rw [Recognised.interface_packed _ _ (hclean text List.mem_cons_self)]
    exact List.subset_cons_self function interface
  all_goals exact List.nil_subset _

theorem declaration_written (names : NameTable) :
    statement.declaration? names =
      some ((Recognised.mk op ⟨place, opcode, operands⟩).declaration names) := by
  have hlast := fun op opcode text htext before =>
    Recognised.literal_packed_last op place opcode (hclean text htext) before
  cases statement <;> cases hop <;> cases hwritten
  case extInstImport id set =>
    have hliteral := hlast .extInstImport 11 set List.mem_cons_self [id]
    exact congrArg (fun set => some (Declaration.extInstImport id set.1)) hliteral.symm
  case name target text =>
    have hliteral := hlast .name 5 text List.mem_cons_self [target]
    exact congrArg (fun text => some (Declaration.name target text.1)) hliteral.symm
  case memberName target member text =>
    have hliteral := hlast .memberName 6 text List.mem_cons_self [target, member]
    exact congrArg (fun text => some (Declaration.memberName target member text.1)) hliteral.symm
  case entryPoint model function text interface =>
    have hname := hclean text List.mem_cons_self
    simp only [Recognised.declaration]
    rw [Recognised.interface_packed _ _ hname, Recognised.literal_packed_interface _ _ _ hname]
    rfl
  case typeInt id width signed =>
    have hsigned := flag_ne_zero signed
    exact congrArg (fun signed => some (Declaration.type (.ofKind id (.int width signed))))
      hsigned.symm
  case typeImage id sampledType dim arrayed =>
    have harrayed := flag_ne_zero arrayed
    simp only [Recognised.declaration, Recognised.operand]
    simp [declaration?, harrayed]
  all_goals rfl

end Written

theorem ofInstruction_written_silent {statement : Statement} {limit : Word}
    (hop : statement.operation? = none)
    (hraw : ∀ opcode ∈ statement.rawOpcode?,
      (NameTable.core.opcodeName opcode).bind Operation.ofMnemonic? = none)
    {opcode : UInt16} {operands : List Word}
    (hwritten : statement.instruction? = some (opcode, operands)) (place : Nat) :
    Declaration.ofInstruction ⟨.core, limit, true⟩ ⟨place, opcode, operands⟩ =
      .ok (statement.declaration? .core) := by
  cases statement <;> cases hop <;> cases hwritten
  case raw =>
    rw [Declaration.ofInstruction, hraw opcode rfl]
    rfl
  case capability | memoryModel => rfl

/-- What a step writes is accepted and declares what the step is meant to declare. -/
theorem ofInstruction_of_faithful {limit : Word} {statement : Statement}
    (hfaithful : statement.Faithful .core limit) {opcode : UInt16} {operands : List Word}
    (hwritten : statement.instruction? = some (opcode, operands)) (place : Nat) :
    Declaration.ofInstruction ⟨.core, limit, true⟩ ⟨place, opcode, operands⟩ =
      .ok (statement.declaration? .core) := by
  cases hop : statement.operation? with
  | none => exact ofInstruction_written_silent hop hfaithful.raw hwritten place
  | some op =>
      have hopcode := opcode_written hop hwritten
      have htarget := hfaithful.checkedIds _ (target_written hop hwritten place)
      have hinterface := interface_written hop hwritten place hfaithful.texts
      rw [declaration_written hop hwritten place hfaithful.texts]
      apply Declaration.ofInstruction_of_checks op hopcode
      · exact hasOperands_written hop hwritten place
      · exact htarget
      · exact literalEnds_written hop hwritten place
      · intro id hid
        exact hfaithful.checkedIds id (hinterface hid)

theorem filterMapM_placed {limit : Word} {statements : List Statement}
    (hfaithful : ∀ statement ∈ statements, statement.Faithful .core limit) (place : Nat) :
    (Instruction.placed place (statements.filterMap instruction?)).filterMapM
        (Declaration.ofInstruction ⟨.core, limit, true⟩) =
      .ok (statements.filterMap (declaration? .core)) := by
  induction statements generalizing place with
  | nil => rfl
  | cons statement rest ih =>
      rw [List.forall_mem_cons] at hfaithful
      cases hwritten : statement.instruction? with
      | none =>
          have hdeclared : statement.declaration? .core = none := by
            cases statement <;> cases hwritten
            rfl
          rw [List.filterMap_cons_none hwritten, List.filterMap_cons_none hdeclared]
          exact ih hfaithful.2 place
      | some code =>
          obtain ⟨opcode, operands⟩ := code
          have hfirst := ofInstruction_of_faithful hfaithful.1 hwritten place
          have hrest := ih hfaithful.2 (place + (operands.length + 1))
          rw [List.filterMap_cons_some hwritten, Instruction.placed, List.filterMapM_cons, hfirst,
            ok_bind]
          cases hdeclared : statement.declaration? .core with
          | none =>
              rw [List.filterMap_cons_none hdeclared]
              exact hrest
          | some declared =>
              rw [List.filterMap_cons_some hdeclared]
              simp only [hrest]
              rfl

end Statement

namespace Assembly

variable (statements : List Statement)

theorem foldl_add (assembly : Assembly) :
    statements.foldl add assembly =
      { bound := (statements.filterMap Statement.bound?).getLast?.getD assembly.bound
        body := assembly.body ++ (statements.filterMap Statement.instruction?).flatMap
          fun code => Instruction.encode code.1 code.2 } := by
  induction statements generalizing assembly with
  | nil => simp
  | cons statement rest ih =>
      rw [List.foldl_cons, ih]
      cases statement
      case bound limit =>
        have hbound : (Statement.bound limit).bound? = some limit := rfl
        have hnothing : (Statement.bound limit).instruction? = none := rfl
        rw [List.filterMap_cons_some hbound, List.filterMap_cons_none hnothing, List.getLast?_cons]
        rfl
      all_goals simp [add, Statement.bound?, Statement.instruction?]

theorem bound_ofStatements :
    (ofStatements statements).bound =
      (statements.filterMap Statement.bound?).getLast?.getD 1024 := by
  rw [ofStatements, foldl_add]

theorem body_ofStatements :
    (ofStatements statements).body = (statements.filterMap Statement.instruction?).flatMap
      fun code => Instruction.encode code.1 code.2 := by
  rw [ofStatements, foldl_add]
  exact List.nil_append _

theorem wordsOfImage_image (assembly : Assembly) :
    ShaderModule.wordsOfImage assembly.image = .ok assembly.words := by
  have hlength := Word.length_image assembly.words
  have hwhole : (Word.image assembly.words).length % 4 = 0 := by omega
  rw [ShaderModule.wordsOfImage, image, if_pos hwhole, Word.ofImage_image]

theorem scan_ofStatements
    (hfits : ∀ code ∈ statements.filterMap Statement.instruction?, code.2.length + 1 < 65536) :
    scan (ofStatements statements).words =
      (Instruction.placed headerLength (statements.filterMap Statement.instruction?), none) := by
  rw [words, body_ofStatements]
  exact scan_written (ofStatements statements).header hfits

/-- The calls of `next` on a written module give its instructions and nothing else. -/
theorem call_ofStatements
    (hfits : ∀ code ∈ statements.filterMap Statement.instruction?, code.2.length + 1 < 65536)
    (names : NameTable) :
    ∃ (decoder : Decoder) (given : List Decoded),
      Decoder.ofWords names (ofStatements statements).words = .ok decoder ∧
      decoder.header = (ofStatements statements).header ∧
      (∀ earlier, decoder.instructions.call earlier = (given.map .ok)[earlier]?) ∧
      given.map (fun decoded => (decoded.insn.opcode, decoded.insn.operands)) =
        statements.filterMap Statement.instruction? := by
  let written := statements.filterMap Statement.instruction?
  let decode : Instruction → Decoded := fun insn => ⟨insn, names.opcodeName insn.opcode⟩
  refine ⟨⟨(ofStatements statements).words, (ofStatements statements).header, names⟩,
    (Instruction.placed headerLength written).map decode, rfl, rfl, ?_, ?_⟩
  · intro earlier
    have hcall := Walk.call_eq (Cursor.ofWords (ofStatements statements).words) names earlier
    have hscan := scan_ofStatements statements hfits
    rw [scan] at hscan
    rw [hscan] at hcall
    simp only [Option.toList_none, List.map_nil, List.append_nil] at hcall
    rw [List.map_map]
    exact hcall
  · rw [List.map_map]
    exact Instruction.map_placed headerLength written

/-- A module that was written faithfully is accepted and records what it was meant to declare. -/
theorem parse_ofStatements
    (hfits : ∀ code ∈ statements.filterMap Statement.instruction?, code.2.length + 1 < 65536)
    (hfaithful : ∀ statement ∈ statements,
      statement.Faithful .core (ofStatements statements).bound)
    (hbound : (ofStatements statements).bound ≤ maxIdBound)
    (hlength : (ofStatements statements).words.length ≤ maxModuleWords) :
    ∃ m, ShaderModule.parse .core {} (ofStatements statements).words = .ok m ∧
      m.Records (statements.filterMap (·.declaration? .core)) := by
  have hscan := scan_ofStatements statements hfits
  have hheader : ShaderModule.parseHeader {} (ofStatements statements).words =
      .ok (ofStatements statements).header := by
    have hread : Header.parse (ofStatements statements).words =
        .ok (ofStatements statements).header := rfl
    rw [ShaderModule.parseHeader_eq (Nat.not_lt.mpr hlength), hread, ok_bind]
    exact if_neg (UInt32.not_lt.mpr hbound)
  have hdeclared : ShaderModule.parseDeclarations ⟨.core, (ofStatements statements).bound, true⟩
      (ofStatements statements).words = .ok (statements.filterMap (·.declaration? .core)) := by
    rw [ShaderModule.parseDeclarations_eq_ok_iff, hscan]
    exact ⟨rfl, Statement.filterMapM_placed hfaithful headerLength⟩
  refine ⟨_, ShaderModule.parse_eq_ok_iff.mpr ⟨_, _, hheader, hdeclared, rfl⟩, ?_⟩
  exact ShaderModule.ofDeclarations_records _ _

theorem map_instruction?_filter :
    (statements.filter (·.bound?.isNone)).map Statement.instruction? =
      (statements.filterMap Statement.instruction?).map some := by
  induction statements with
  | nil => rfl
  | cons statement rest ih =>
      cases hwritten : statement.instruction? with
      | none =>
          have hbound := Statement.instruction?_eq_none_iff.mp hwritten
          simp only [List.filter_cons, hbound, List.filterMap_cons_none hwritten, ← ih]
          rfl
      | some code =>
          have hbound : statement.bound?.isNone = true := by
            rw [← Bool.not_eq_false, ← Statement.instruction?_eq_none_iff, hwritten]
            simp
          simp only [List.filter_cons, hbound, List.filterMap_cons_some hwritten, List.map_cons,
            ← ih, ↓reduceIte, hwritten]

/-- Reading undoes writing. Each step but those that set the bound is read back as one instruction
with the step's opcode and operands, the words are the ones that the byte image holds, and a module
whose steps keep to what a reader checks says about every id what the steps said. -/
theorem reading_undoes_writing (hfits : ∀ statement ∈ statements,
      ∀ code ∈ statement.instruction?, code.2.length + 1 ≤ 65535) :
    let assembly := ofStatements statements
    (∀ names, ∃ (decoder : Decoder) (given : List Decoded),
      Decoder.ofWords names assembly.words = .ok decoder ∧
      decoder.header.bound = (statements.filterMap Statement.bound?).getLast?.getD 1024 ∧
      (∀ earlier, decoder.instructions.call earlier = (given.map .ok)[earlier]?) ∧
      given.map (fun decoded => some (decoded.insn.opcode, decoded.insn.operands)) =
        (statements.filter (·.bound?.isNone)).map Statement.instruction?) ∧
    ShaderModule.wordsOfImage assembly.image = .ok assembly.words ∧
    (∀ names options, ShaderModule.parseImage names options assembly.image =
      ShaderModule.parse names options assembly.words) ∧
    ((∀ statement ∈ statements, statement.Faithful .core assembly.bound) →
      assembly.bound ≤ maxIdBound → assembly.words.length ≤ maxModuleWords →
      ∃ m, ShaderModule.parse .core {} assembly.words = .ok m ∧
        m.Records (statements.filterMap (·.declaration? .core))) := by
  intro assembly
  have hwritten : ∀ code ∈ statements.filterMap Statement.instruction?,
      code.2.length + 1 < 65536 := by
    intro code hcode
    obtain ⟨statement, hstatement, hcode⟩ := List.mem_filterMap.mp hcode
    exact Nat.lt_succ_of_le (hfits statement hstatement code hcode)
  have himage : ShaderModule.wordsOfImage assembly.image = .ok assembly.words :=
    wordsOfImage_image assembly
  refine ⟨?_, himage, ?_, parse_ofStatements statements hwritten⟩
  · intro names
    obtain ⟨decoder, given, hopened, hheader, hcalls, hgiven⟩ :=
      call_ofStatements statements hwritten names
    refine ⟨decoder, given, hopened, ?_, hcalls, ?_⟩
    · rw [hheader]
      exact bound_ofStatements statements
    · rw [map_instruction?_filter, ← hgiven, List.map_map]
      rfl
  · intro names options
    rw [ShaderModule.parseImage, himage, ok_bind]

/-- The statements of a fragment stage whose texts fill whole words, with a forward reference, two
bounds and an opcode without a declaration. -/
theorem reading_undoes_writing_fragment_stage :
    let statements : List Statement :=
      [.bound 4, .capability 1, .extInstImport 1 "GLSL.std.450", .memoryModel 0 1,
        .entryPoint 4 2 "main" [7, 8], .name 5 "", .memberName 5 0 "color", .decorate 7 30 [1],
        .raw 16 [2, 7], .typeFloat 3 32, .typeVector 4 3 4, .typeStruct 5 [4, 3],
        .typePointer 6 1 4, .constant 3 9 1, .moduleVariable 6 7 1, .moduleVariable 6 8 3,
        .bound 16]
    (∀ statement ∈ statements, ∀ code ∈ statement.instruction?, code.2.length + 1 ≤ 65535) ∧
    (∀ statement ∈ statements, statement.Faithful .core (ofStatements statements).bound) ∧
    ∃ m, ShaderModule.parse .core {} (ofStatements statements).words = .ok m ∧
      m.Records
        [.extInstImport 1 "GLSL.std.450", .entryPoint ⟨"main", 2, .fragment, [7, 8]⟩, .name 5 "",
          .memberName 5 0 "color", .decorate 7 ⟨30, some "Location", [1]⟩,
          .type (.ofKind 3 (.float 32)), .type (.ofKind 4 (.vector 3 4)),
          .type (.ofKind 5 (.struct [4, 3])), .type (.ofKind 6 (.pointer .input 4)),
          .constant ⟨9, 3, [1]⟩, .moduleVariable ⟨7, 6, .input⟩,
          .moduleVariable ⟨8, 6, .output⟩] := by
  intro statements
  have hfits : ∀ statement ∈ statements, ∀ code ∈ statement.instruction?,
      code.2.length + 1 ≤ 65535 := by decide +kernel
  have hfaithful : ∀ statement ∈ statements,
      statement.Faithful .core (ofStatements statements).bound := by decide +kernel
  have hlength : (ofStatements statements).words.length ≤ maxModuleWords := by decide +kernel
  obtain ⟨-, -, -, hparse⟩ := reading_undoes_writing statements hfits
  exact ⟨hfits, hfaithful, hparse hfaithful (by decide +kernel) hlength⟩

end Assembly

end ShaderReflection
