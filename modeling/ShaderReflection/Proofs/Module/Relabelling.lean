import ShaderReflection.Proofs.Module.Pass
import ShaderReflection.Proofs.Module.Refusal
import ShaderReflection.Proofs.Stream.Relabelling

/-!
Reading a stream whose places and opcodes have been changed. No check and no table looks at a place
or at the number of an opcode, so a name table that gives the changed opcodes the mnemonics of the
old ones reads the same module, and an error names the changed place and the changed opcode.
-/

namespace ShaderReflection

namespace NameTable

/-- The operation that an opcode stands for, if a table has a mnemonic for the opcode and the
mnemonic names one. -/
def operation? (names : NameTable) (opcode : UInt16) : Option Operation :=
  (names.opcodeName opcode).bind Operation.ofMnemonic?

/-- Whether a table says about an instruction with a changed opcode what another table says about
the instruction itself. -/
structure Agrees (names' names : NameTable) (change : UInt16 → UInt16) (insn : Instruction) :
    Prop where
  operation : names'.operation? (change insn.opcode) = names.operation? insn.opcode
  decoration : names.operation? insn.opcode = some .decorate →
    ∀ kind, insn.operands[1]? = some kind → names'.decorationName kind = names.decorationName kind

theorem Agrees.refl (names : NameTable) (insn : Instruction) : names.Agrees names id insn where
  operation := rfl
  decoration _ _ _ := rfl

end NameTable

variable {change : Relabelling} {context context' : Declaration.Context}

namespace Declaration.Context

/-- Whether two contexts allow the same ids. -/
structure SameBound (context' context : Context) : Prop where
  bound : context'.bound = context.bound
  checkIdBound : context'.checkIdBound = context.checkIdBound

theorem SameBound.checkId_relabel (h : SameBound context' context) (change : Relabelling)
    (insn : Instruction) (id : Ident) :
    context'.checkId (insn.relabel change) id =
      (context.checkId insn id).mapError (·.relabel change) := by
  unfold checkId
  rw [h.bound, h.checkIdBound]
  split_ifs <;> rfl

theorem SameBound.checkIds_relabel (h : SameBound context' context) (change : Relabelling)
    (insn : Instruction) (ids : List Ident) :
    context'.checkIds (insn.relabel change) ids =
      (context.checkIds insn ids).mapError (·.relabel change) := by
  unfold checkIds
  induction ids with
  | nil => rfl
  | cons id rest ih =>
      change (context'.checkId (insn.relabel change) id >>= fun _ =>
        rest.forM (context'.checkId (insn.relabel change))) = _
      rw [h.checkId_relabel, ih]
      exact (mapError_bind _ _ _).symm

end Declaration.Context

namespace Recognised

variable {op : Operation} {insn : Instruction}

theorem checkCount_relabel :
    (Recognised.mk op (insn.relabel change)).checkCount =
      (Recognised.mk op insn).checkCount.mapError (·.relabel change) := by
  unfold checkCount
  have hoperands : (insn.relabel change).operands = insn.operands := rfl
  simp only [hoperands]
  split_ifs <;> rfl

theorem checkLiteral_relabel :
    (Recognised.mk op (insn.relabel change)).checkLiteral =
      (Recognised.mk op insn).checkLiteral.mapError (·.relabel change) := by
  unfold checkLiteral
  have hoperands : (insn.relabel change).operands = insn.operands := rfl
  simp only [hoperands]
  cases literalStart? op with
  | none => rfl
  | some start =>
      simp only
      split_ifs <;> rfl

/-- Of all that a name table holds, a declaration has only the mnemonic of a decoration's kind. -/
theorem declaration_relabel (change : Relabelling) {names names' : NameTable}
    (hcount : (Recognised.mk op insn).HasOperands)
    (hdecoration : op = .decorate → ∀ kind, insn.operands[1]? = some kind →
      names'.decorationName kind = names.decorationName kind) :
    (Recognised.mk op (insn.relabel change)).declaration names' =
      (Recognised.mk op insn).declaration names := by
  cases op
  case decorate =>
    have hlength : 2 ≤ insn.operands.length := hcount
    have hkind : insn.operands[1]? = some ((Recognised.mk .decorate insn).operand 1) := by
      rw [operand, List.getD_eq_getElem?_getD, List.getElem?_eq_getElem (by omega),
        Option.getD_some]
    have hname := hdecoration rfl _ hkind
    exact congrArg (fun name => Declaration.decorate ((Recognised.mk .decorate insn).operand 0)
      ⟨(Recognised.mk .decorate insn).operand 1, name, insn.operands.drop 2⟩) hname
  all_goals rfl

theorem read_relabel (hbound : context'.SameBound context)
    (hdecoration : op = .decorate → ∀ kind, insn.operands[1]? = some kind →
      context'.names.decorationName kind = context.names.decorationName kind) :
    (Recognised.mk op (insn.relabel change)).read context' =
      ((Recognised.mk op insn).read context).mapError (·.relabel change) := by
  unfold read
  simp only [mapError_bind]
  rw [checkCount_relabel]
  cases hcount : (Recognised.mk op insn).checkCount with
  | error error => rfl
  | ok checked =>
      have hdeclaration := declaration_relabel change (checkCount_eq_ok_iff.mp hcount)
        hdecoration
      rw [checkLiteral_relabel, hdeclaration]
      have htarget := hbound.checkId_relabel change insn (Recognised.mk op insn).target
      have hinterface :=
        hbound.checkIds_relabel change insn (Recognised.mk op insn).interface
      exact congrArg₂ (fun target interface => target >>= fun _ =>
        (Recognised.mk op insn).checkLiteral.mapError (·.relabel change) >>= fun _ =>
          interface >>= fun _ => Except.ok _) htarget hinterface

end Recognised

namespace Declaration

theorem ofInstruction_eq_read (context : Context) (insn : Instruction) :
    ofInstruction context insn =
      match context.names.operation? insn.opcode with
      | none => .ok none
      | some op => ((Recognised.mk op insn).read context).map some := by
  unfold ofInstruction NameTable.operation?
  cases (context.names.opcodeName insn.opcode).bind Operation.ofMnemonic? with
  | none => rfl
  | some op => exact congrArg (Except.map some) (ofOperands_eq context op insn)

theorem ofInstruction_relabel (change : Relabelling) {insn : Instruction}
    (hbound : context'.SameBound context)
    (hagrees : context'.names.Agrees context.names change.opcode insn) :
    ofInstruction context' (insn.relabel change) =
      (ofInstruction context insn).mapError (·.relabel change) := by
  have hoperation : context'.names.operation? (insn.relabel change).opcode =
      context.names.operation? insn.opcode := hagrees.operation
  rw [ofInstruction_eq_read, ofInstruction_eq_read, hoperation]
  cases hop : context.names.operation? insn.opcode with
  | none => rfl
  | some op =>
      simp only
      rw [mapError_map, Recognised.read_relabel hbound]
      rintro rfl
      exact hagrees.decoration hop

/-- Whether an instruction is accepted and what it declares does not depend on its place. -/
theorem ofInstruction_at_place (context : Context) (insn : Instruction) (place : Nat) :
    ofInstruction context { insn with offset := place } =
      (ofInstruction context insn).mapError (·.relabel ⟨fun _ => place, id⟩) :=
  ofInstruction_relabel ⟨fun _ => place, id⟩ ⟨rfl, rfl⟩
    (NameTable.Agrees.refl context.names insn)

end Declaration

namespace ShaderModule

/-- Applies the instructions from a place on to a module that the ones before have built. -/
def passFrom (context : Declaration.Context) (cursor : Cursor) (m : ShaderModule) :
    Except ParseError ShaderModule := do
  let m ← (cursor.scanFrom []).1.foldlM (apply context) m
  (cursor.scanFrom []).2.elim (.ok m) .error

theorem parse_eq_passFrom (names : NameTable) (options : ParseOptions) (words : List Word) :
    parse names options words = (do
      let header ← parseHeader options words
      passFrom ⟨names, header.bound, options.checkIdBound⟩ (.ofWords words) (empty header)) :=
  parse_eq_pass names options words

/-- A pass from a place where an instruction stands applies the instruction and goes on behind
it. -/
theorem passFrom_insn (context : Declaration.Context) {cursor : Cursor} (m : ShaderModule)
    {insn : Instruction} (hcurrent : cursor.current = .ok insn) :
    passFrom context cursor m =
      (apply context m insn >>= passFrom context (cursor.skip insn.wordCount)) := by
  have hinside : cursor.inBounds = true := by
    cases hrest : cursor.rest with
    | nil => simp [Cursor.current, hrest] at hcurrent
    | cons first following => simp [Cursor.inBounds, hrest]
  unfold passFrom
  rw [cursor.scanFrom_ok _ hinside hcurrent, Cursor.scanFrom_eq]
  simp only [List.reverse_singleton, List.singleton_append, List.foldlM_cons, bind_assoc]

theorem apply_relabel (change : Relabelling) {insn : Instruction} (hbound : context'.SameBound context)
    (hagrees : context'.names.Agrees context.names change.opcode insn) (m : ShaderModule) :
    apply context' m (insn.relabel change) =
      (apply context m insn).mapError (·.relabel change) := by
  unfold apply
  rw [Declaration.ofInstruction_relabel change hbound hagrees, mapError_map]

theorem foldlM_apply_relabel {insns : List Instruction} (hbound : context'.SameBound context)
    (hagrees : ∀ insn ∈ insns, context'.names.Agrees context.names change.opcode insn)
    (m : ShaderModule) :
    (insns.map (·.relabel change)).foldlM (apply context') m =
      (insns.foldlM (apply context) m).mapError (·.relabel change) := by
  induction insns generalizing m with
  | nil => rfl
  | cons insn rest ih =>
      rw [List.forall_mem_cons] at hagrees
      simp only [List.map_cons, List.foldlM_cons]
      rw [mapError_bind, apply_relabel change hbound hagrees.1]
      exact congrArg _ (funext fun m => ih hagrees.2 m)

/-- Passes over streams that differ in places and opcodes build the same modules and fail with the
same errors but for the places and the opcodes. -/
theorem passFrom_of_follows {cursor cursor' : Cursor} (hbound : context'.SameBound context)
    (hfollows : cursor'.Follows change cursor)
    (hagrees : ∀ insn ∈ (cursor.scanFrom []).1,
      context'.names.Agrees context.names change.opcode insn) (m : ShaderModule) :
    passFrom context' cursor' m = (passFrom context cursor m).mapError (·.relabel change) := by
  unfold passFrom
  rw [Cursor.scanFrom_of_follows hfollows]
  simp only
  rw [mapError_bind, foldlM_apply_relabel hbound hagrees]
  refine congrArg _ (funext fun m => ?_)
  cases (cursor.scanFrom []).2 <;> rfl

/-- The errors of a header name no place. -/
theorem parseHeader_relabel (options : ParseOptions) (words : List Word) :
    (parseHeader options words).mapError (·.relabel change) = parseHeader options words := by
  by_cases hlong : options.maxWords < words.length
  · rw [parseHeader_long hlong]
    rfl
  · rw [parseHeader_eq hlong]
    unfold Header.parse
    split
    · split_ifs
      · simp only [ok_bind]
        split_ifs <;> rfl
      · rfl
    · rfl

/-- A change of a stream behind its header changes what is read as it changes what a pass from there
builds. -/
theorem parse_relabel {names names' : NameTable} {options : ParseOptions} {words words' : List Word}
    (hheader : parseHeader options words' = parseHeader options words)
    (hpass : ∀ header, parseHeader options words = .ok header →
      passFrom ⟨names', header.bound, options.checkIdBound⟩ (.ofWords words') (empty header) =
        (passFrom ⟨names, header.bound, options.checkIdBound⟩ (.ofWords words)
          (empty header)).mapError (·.relabel change)) :
    parse names' options words' = (parse names options words).mapError (·.relabel change) := by
  rw [parse_eq_passFrom, parse_eq_passFrom, mapError_bind, parseHeader_relabel, hheader]
  cases hread : parseHeader options words with
  | error error => rfl
  | ok header => exact hpass header hread

end ShaderModule

end ShaderReflection
