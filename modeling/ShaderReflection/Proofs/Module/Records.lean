import ShaderReflection.NameTable.Core
import ShaderReflection.Proofs.Fallible
import ShaderReflection.Proofs.Module.Tables
import ShaderReflection.ShaderModule.Parse

/-!
What a module that was read says about the instructions it was read from. Every instruction whose
mnemonic is recognised declares one thing, given by its operands alone, and the tables of the module
record these things by the rules for each table.
-/

namespace ShaderReflection

/-- An instruction and the operation that its mnemonic names. -/
structure Recognised where
  op : Operation
  insn : Instruction

namespace Recognised

/-- The operation of an instruction, if a name table has a mnemonic for its opcode and the mnemonic
names one. -/
def ofInstruction? (names : NameTable) (insn : Instruction) : Option Recognised :=
  ((names.opcodeName insn.opcode).bind Operation.ofMnemonic?).map (⟨·, insn⟩)

variable (names : NameTable) (i : Recognised)

/-- The operand with an index, zero past the last one. -/
def operand (index : Nat) : Word := i.insn.operands.getD index 0

/-- The literal that begins at an operand, and the index of the operand after it. -/
def literal (start : Nat) : String × Nat := (Literal.decode? i.insn.operands start).getD ("", 0)

/-- The operand at which an operation's literal begins, if it has one. -/
def literalStart? : Operation → Option Nat
  | .extInstImport | .name => some 1
  | .entryPoint | .memberName => some 2
  | _ => none

/-- The id that an instruction defines or targets. -/
def target : Ident :=
  match i.op with
  | .entryPoint | .constant | .moduleVariable => i.operand 1
  | _ => i.operand 0

/-- The interface ids of an entry point, which follow its name. -/
def interface : List Ident :=
  match i.op with
  | .entryPoint => i.insn.operands.drop (i.literal 2).2
  | _ => []

/-- An instruction has the operands that its operation reads, and its literal ends. -/
def Readable : Prop :=
  i.op.minOperands ≤ i.insn.operands.length ∧
    ∀ start, literalStart? i.op = some start → (Literal.decode? i.insn.operands start).isSome

/-- What an instruction declares, read off its operands. -/
def declaration : Declaration :=
  let type (kind : TypeKind) : Declaration := .type (.ofKind (i.operand 0) kind)
  match i.op with
  | .extInstImport => .extInstImport (i.operand 0) (i.literal 1).1
  | .entryPoint =>
      .entryPoint
        { name := (i.literal 2).1
          function := i.operand 1
          model := .ofWord (i.operand 0)
          interface := i.interface }
  | .name => .name (i.operand 0) (i.literal 1).1
  | .memberName => .memberName (i.operand 0) (i.operand 1) (i.literal 2).1
  | .decorate =>
      .decorate (i.operand 0)
        { kind := i.operand 1
          name := names.decorationName (i.operand 1)
          args := i.insn.operands.drop 2 }
  | .typeVoid => type .void
  | .typeBool => type .bool
  | .typeInt => type (.int (i.operand 1) (i.operand 2 != 0))
  | .typeFloat => type (.float (i.operand 1))
  | .typeVector => type (.vector (i.operand 1) (i.operand 2))
  | .typeMatrix => type (.matrix (i.operand 1) (i.operand 2))
  | .typeImage =>
      type (.image
        { sampledType := i.operand 1
          dim := .ofWord (i.operand 2)
          depth := i.operand 3
          arrayed := i.operand 4 != 0
          multisampled := i.operand 5 != 0
          sampled := i.operand 6
          format := i.operand 7 })
  | .typeSampler => type .sampler
  | .typeSampledImage => type (.sampledImage (i.operand 1))
  | .typeArray => type (.array (i.operand 1) (i.operand 2))
  | .typePointer => type (.pointer (.ofWord (i.operand 1)) (i.operand 2))
  | .typeStruct => type (.struct (i.insn.operands.drop 1))
  | .constant =>
      .constant { id := i.operand 1, type := i.operand 0, words := i.insn.operands.drop 2 }
  | .moduleVariable =>
      .moduleVariable { id := i.operand 1, type := i.operand 0, storage := .ofWord (i.operand 2) }

/-- Refuses an instruction with fewer operands than its operation reads. -/
def checkCount : Except ParseError Unit :=
  if i.insn.operands.length < i.op.minOperands then
    .error (.malformed i.insn.offset (some i.insn.opcode)
      (.missingOperand i.op i.insn.operands.length))
  else .ok ()

/-- Refuses an instruction whose literal does not end. -/
def checkLiteral : Except ParseError Unit :=
  match literalStart? i.op with
  | none => .ok ()
  | some start =>
    if (Literal.decode? i.insn.operands start).isSome then .ok ()
    else .error (.malformed i.insn.offset (some i.insn.opcode) (.unterminatedString i.op))

/-- Checks an instruction and gives what it declares. -/
def read (context : Declaration.Context) : Except ParseError Declaration := do
  i.checkCount
  context.checkId i.insn i.target
  i.checkLiteral
  context.checkIds i.insn i.interface
  return i.declaration context.names

end Recognised

/-- The instructions of a stream that are recognised, in order. -/
def recognised (names : NameTable) (words : List Word) : List Recognised :=
  (scan words).1.filterMap (Recognised.ofInstruction? names)

namespace Declaration

/-- Reading the literal of an operation is checking that it ends and then taking it. -/
theorem literal_bind {α : Type} (op : Operation) (insn : Instruction) {start : Nat}
    (hstart : Recognised.literalStart? op = some start)
    (next : String × Nat → Except ParseError α) :
    (literal op insn start >>= next) =
      ((Recognised.mk op insn).checkLiteral >>= fun _ =>
        next ((Recognised.mk op insn).literal start)) := by
  cases hdecode : Literal.decode? insn.operands start <;>
    simp [literal, Recognised.checkLiteral, Recognised.literal, hstart, hdecode]

/-- Whatever the operation, the number of operands is checked first, then the id that is defined or
targeted, then the literal and then the interface ids, and what is declared depends on nothing
else. -/
theorem ofOperands_eq (context : Context) (op : Operation) (insn : Instruction) :
    ofOperands context op insn = (Recognised.mk op insn).read context := by
  obtain ⟨offset, opcode, operands⟩ := insn
  cases op
  case typeImage =>
    rcases operands with _ | ⟨_, _ | ⟨_, _ | ⟨_, _ | ⟨_, _ | ⟨_, _ | ⟨_, _ | ⟨_, _ | ⟨_, _⟩⟩⟩⟩⟩⟩⟩⟩
    all_goals rfl
  case extInstImport =>
    rcases operands with _ | ⟨id, _ | ⟨first, rest⟩⟩
    · rfl
    · rfl
    · have hliteral := literal_bind .extInstImport ⟨offset, opcode, id :: first :: rest⟩ rfl
        fun text => Except.ok (Declaration.extInstImport id text.1)
      exact congrArg (context.checkId _ id >>= fun _ => ·) hliteral
  case name =>
    rcases operands with _ | ⟨target, _ | ⟨first, rest⟩⟩
    · rfl
    · rfl
    · have hliteral := literal_bind .name ⟨offset, opcode, target :: first :: rest⟩ rfl
        fun text => Except.ok (Declaration.name target text.1)
      exact congrArg (context.checkId _ target >>= fun _ => ·) hliteral
  case memberName =>
    rcases operands with _ | ⟨target, _ | ⟨member, _ | ⟨first, rest⟩⟩⟩
    · rfl
    · rfl
    · rfl
    · have hliteral :=
        literal_bind .memberName ⟨offset, opcode, target :: member :: first :: rest⟩ rfl
          fun text => Except.ok (Declaration.memberName target member text.1)
      exact congrArg (context.checkId _ target >>= fun _ => ·) hliteral
  case entryPoint =>
    rcases operands with _ | ⟨model, _ | ⟨function, _ | ⟨first, rest⟩⟩⟩
    · rfl
    · rfl
    · rfl
    · have hliteral :=
        literal_bind .entryPoint ⟨offset, opcode, model :: function :: first :: rest⟩ rfl
          fun text =>
            let interface := (model :: function :: first :: rest).drop text.2
            context.checkIds ⟨offset, opcode, model :: function :: first :: rest⟩ interface >>=
              fun _ =>
                Except.ok (Declaration.entryPoint ⟨text.1, function, .ofWord model, interface⟩)
      exact congrArg (context.checkId _ function >>= fun _ => ·) hliteral
  all_goals
    rcases operands with _ | ⟨_, _ | ⟨_, _ | ⟨_, _⟩⟩⟩
    all_goals rfl

end Declaration

namespace Recognised

theorem readable_of_read {i : Recognised} {context : Declaration.Context}
    {declared : Declaration} (hread : i.read context = .ok declared) :
    i.Readable ∧ declared = i.declaration context.names := by
  obtain ⟨_, hcount, hread⟩ := bind_eq_ok_iff.mp hread
  obtain ⟨_, -, hread⟩ := bind_eq_ok_iff.mp hread
  obtain ⟨_, hliteral, hread⟩ := bind_eq_ok_iff.mp hread
  obtain ⟨_, -, hread⟩ := bind_eq_ok_iff.mp hread
  refine ⟨⟨?_, ?_⟩, (Except.ok.inj hread).symm⟩
  · unfold checkCount at hcount
    split_ifs at hcount with hfew
    exact Nat.le_of_not_lt hfew
  · intro start hstart
    unfold checkLiteral at hliteral
    rw [hstart] at hliteral
    simp only at hliteral
    split_ifs at hliteral with hends
    exact hends

end Recognised

namespace Declaration

theorem ofInstruction_eq (context : Context) (insn : Instruction) :
    ofInstruction context insn =
      match Recognised.ofInstruction? context.names insn with
      | none => .ok none
      | some i => (i.read context).map some := by
  unfold ofInstruction Recognised.ofInstruction?
  cases (context.names.opcodeName insn.opcode).bind Operation.ofMnemonic? with
  | none => rfl
  | some op => exact congrArg (Except.map some) (ofOperands_eq context op insn)

/-- When all instructions are accepted, the recognised ones are readable and declare what their
operands say, in order. -/
theorem filterMapM_ofInstruction {context : Context} {insns : List Instruction}
    {declared : List Declaration}
    (haccepted : insns.filterMapM (ofInstruction context) = .ok declared) :
    (∀ i ∈ insns.filterMap (Recognised.ofInstruction? context.names), i.Readable) ∧
      declared = (insns.filterMap (Recognised.ofInstruction? context.names)).map
        (·.declaration context.names) := by
  induction insns generalizing declared with
  | nil =>
      obtain rfl := Except.ok.inj haccepted
      exact ⟨by simp, rfl⟩
  | cons insn rest ih =>
      rw [List.filterMapM_cons] at haccepted
      obtain ⟨result, hfirst, haccepted⟩ := bind_eq_ok_iff.mp haccepted
      rw [ofInstruction_eq] at hfirst
      cases hrecognised : Recognised.ofInstruction? context.names insn with
      | none =>
          rw [hrecognised] at hfirst
          obtain rfl := Except.ok.inj hfirst
          rw [List.filterMap_cons_none hrecognised]
          exact ih haccepted
      | some i =>
          rw [hrecognised] at hfirst
          simp only at hfirst
          cases hread : i.read context with
          | error error =>
              rw [hread] at hfirst
              cases hfirst
          | ok first =>
              rw [hread] at hfirst
              obtain rfl := Except.ok.inj hfirst
              obtain ⟨others, hothers, haccepted⟩ := bind_eq_ok_iff.mp haccepted
              obtain rfl := Except.ok.inj haccepted
              obtain ⟨hreadable, hdeclared⟩ := ih hothers
              obtain ⟨hfirstReadable, rfl⟩ := Recognised.readable_of_read hread
              rw [List.filterMap_cons_some hrecognised]
              refine ⟨?_, by rw [List.map_cons, hdeclared]⟩
              intro other hother
              rcases List.mem_cons.mp hother with rfl | hother
              · exact hfirstReadable
              · exact hreadable other hother

end Declaration

namespace ShaderModule

theorem parseDeclarations_eq_ok_iff {context : Declaration.Context} {words : List Word}
    {declared : List Declaration} :
    parseDeclarations context words = .ok declared ↔
      (scan words).2 = none ∧
        (scan words).1.filterMapM (Declaration.ofInstruction context) = .ok declared := by
  unfold parseDeclarations
  obtain ⟨insns, ending⟩ := scan words
  constructor
  · intro hdeclared
    obtain ⟨accepted, haccepted, hending⟩ := bind_eq_ok_iff.mp hdeclared
    cases ending with
    | none =>
        obtain rfl := Except.ok.inj hending
        exact ⟨rfl, haccepted⟩
    | some error => cases hending
  · rintro ⟨hending, haccepted⟩
    simp only at hending haccepted
    subst hending
    exact bind_eq_ok_iff.mpr ⟨declared, haccepted, rfl⟩

theorem parse_eq_ok_iff {names : NameTable} {options : ParseOptions} {words : List Word}
    {m : ShaderModule} :
    parse names options words = .ok m ↔
      ∃ header declared, parseHeader options words = .ok header ∧
        parseDeclarations ⟨names, header.bound, options.checkIdBound⟩ words = .ok declared ∧
        m = ofDeclarations header declared := by
  unfold parse
  rw [bind_eq_ok_iff]
  refine exists_congr fun header => ?_
  rw [exists_and_left]
  refine and_congr_right fun _ => ?_
  rw [bind_eq_ok_iff]
  refine exists_congr fun declared => and_congr_right fun _ => ?_
  constructor
  · intro h
    exact (Except.ok.inj h).symm
  · rintro rfl
    rfl

theorem records_of_parse {names : NameTable} {options : ParseOptions} {words : List Word}
    {m : ShaderModule} (hparsed : parse names options words = .ok m) :
    m.Records ((recognised names words).map (·.declaration names)) := by
  obtain ⟨header, declared, -, hdeclared, rfl⟩ := parse_eq_ok_iff.mp hparsed
  have haccepted := (parseDeclarations_eq_ok_iff.mp hdeclared).2
  obtain ⟨-, rfl⟩ := Declaration.filterMapM_ofInstruction haccepted
  exact ofDeclarations_records header _

/-- A module that was read records what the recognised instructions of its stream declare, and all
of these have their operands and end their literals. -/
theorem parse_records {names : NameTable} {options : ParseOptions} {words : List Word}
    {m : ShaderModule} (hparsed : parse names options words = .ok m) :
    (scan words).2 = none ∧ (∀ i ∈ recognised names words, i.Readable) ∧
      m.Records ((recognised names words).map (·.declaration names)) := by
  obtain ⟨header, declared, -, hdeclared, rfl⟩ := parse_eq_ok_iff.mp hparsed
  obtain ⟨hending, haccepted⟩ := parseDeclarations_eq_ok_iff.mp hdeclared
  obtain ⟨hreadable, rfl⟩ := Declaration.filterMapM_ofInstruction haccepted
  exact ⟨hending, hreadable, ofDeclarations_records header _⟩

/-- A stream that names an id twice, declares a type twice and a variable twice. -/
theorem parse_records_redefinitions :
    let words : List Word :=
      [magicNumber, 0x10000, 0, 16, 0, Instruction.firstWord 5 3, 1, 0x61,
        Instruction.firstWord 5 3, 1, 0x62, Instruction.firstWord 22 3, 2, 32,
        Instruction.firstWord 21 4, 2, 32, 1, Instruction.firstWord 59 4, 2, 3, 0,
        Instruction.firstWord 59 4, 2, 3, 1]
    ∃ m, parse .core {} words = .ok m ∧ (scan words).2 = none ∧
      (∀ i ∈ recognised .core words, i.Readable) ∧
      m.Records ((recognised .core words).map (·.declaration .core)) := by
  intro words
  have hok : (parse .core {} words).isOk = true := by decide +kernel
  obtain ⟨m, hparsed⟩ := exists_of_isOk hok
  exact ⟨m, hparsed, parse_records hparsed⟩

end ShaderModule

end ShaderReflection
