import ShaderReflection.Assembly
import ShaderReflection.Proofs.Module.Relabelling
import ShaderReflection.Proofs.Stream.Writing

/-!
When the order of instructions matters. Two declarations that fill different slots of a module can
be added in either order, so streams that keep the order of the instructions for each slot give the
same module, however the slots are interleaved.
-/

namespace ShaderReflection

section Lists

variable {ι : Type} {item : ι} {rest before after : List ι} {keeps : ι → Bool}
variable (hfirst : item ∉ before)
variable (hfilter : (item :: rest).filter keeps = (before ++ item :: after).filter keeps)

include hfirst hfilter

/-- The first kept item of one list comes first among the kept ones of the other as well. -/
theorem filter_before_eq_nil (hitem : keeps item = true) : before.filter keeps = [] := by
  cases hbefore : before.filter keeps with
  | nil => rfl
  | cons other others =>
      rw [List.filter_append, hbefore, List.filter_cons_of_pos hitem] at hfilter
      have hsame : item = other := (List.cons.inj hfilter).1
      have hmember : other ∈ before.filter keeps := hbefore ▸ List.mem_cons_self
      exact absurd (List.mem_of_mem_filter (hsame ▸ hmember)) hfirst

theorem filter_rest_eq : rest.filter keeps = (before ++ after).filter keeps := by
  cases hitem : keeps item with
  | true =>
      have hbefore := filter_before_eq_nil hfirst hfilter hitem
      rw [List.filter_append, List.filter_cons_of_pos hitem, List.filter_cons_of_pos hitem,
        hbefore] at hfilter
      rw [List.filter_append, hbefore]
      exact (List.cons.inj hfilter).2
  | false =>
      have hdrop : keeps item ≠ true := by rw [hitem]; exact Bool.false_ne_true
      rwa [List.filter_append, List.filter_cons_of_neg hdrop, List.filter_cons_of_neg hdrop,
        ← List.filter_append] at hfilter

end Lists

section Folds

variable {σ ι κ : Type} {step : σ → ι → σ} {slot? : ι → Option κ}

/-- Whether two items do not fill a common slot. -/
def Apart (slot? : ι → Option κ) (item other : ι) : Prop :=
  ∀ slot, slot? item = some slot → slot? other ≠ some slot

variable (hcomm : ∀ state item other, Apart slot? item other →
  step (step state item) other = step (step state other) item)

include hcomm

/-- An item can be applied before others that fill other slots. -/
theorem foldl_move_front {item : ι} {before : List ι} (hbefore : ∀ other ∈ before,
    Apart slot? item other) (state : σ) :
    step (before.foldl step state) item = before.foldl step (step state item) := by
  induction before generalizing state with
  | nil => rfl
  | cons other rest ih =>
      rw [List.forall_mem_cons] at hbefore
      rw [List.foldl_cons, List.foldl_cons, ih hbefore.2, hcomm _ _ _ hbefore.1]

/-- Reordering items changes nothing if the items of every slot stay in order. The first item of one
list stands in the other behind items of other slots only, as it is the first one of its slot. -/
theorem foldl_eq_of_slots [DecidableEq κ] {items items' : List ι} (hperm : items.Perm items')
    (hslots : ∀ slot, items.filter (slot? · = some slot) = items'.filter (slot? · = some slot))
    (state : σ) : items.foldl step state = items'.foldl step state := by
  induction items generalizing items' state with
  | nil => rw [List.nil_perm.mp hperm]
  | cons item rest ih =>
      obtain ⟨before, after, rfl, hfirst⟩ :=
        List.eq_append_cons_of_mem (hperm.mem_iff.mp List.mem_cons_self)
      have hbefore : ∀ other ∈ before, Apart slot? item other := by
        intro other hother slot hslot
        have hnone := filter_before_eq_nil hfirst (hslots slot) (decide_eq_true hslot)
        exact mt decide_eq_true (List.filter_eq_nil_iff.mp hnone other hother)
      have hrest := ih (hperm.trans List.perm_middle).cons_inv
        (fun slot => filter_rest_eq hfirst (hslots slot)) (step state item)
      rw [List.foldl_cons, hrest, List.foldl_append, List.foldl_append, List.foldl_cons,
        foldl_move_front hcomm hbefore]

end Folds

/-- A part of a module for which the order of the declarations that fill it matters. -/
inductive Slot where
  | entryPoints
  | moduleVariables
  | decorations (target : Ident)
  | name (target : Ident)
  | memberName (target : Ident) (member : Word)
  | type (id : Ident)
  | constant (id : Ident)
  deriving DecidableEq, Repr

/-- The slot that a declaration fills. -/
def Declaration.slot? : Declaration → Option Slot
  | .extInstImport .. => none
  | .entryPoint _ => some .entryPoints
  | .name target _ => some (.name target)
  | .memberName target member _ => some (.memberName target member)
  | .decorate target _ => some (.decorations target)
  | .type declared => some (.type declared.id)
  | .constant declared => some (.constant declared.id)
  | .moduleVariable _ => some .moduleVariables

/-- The slot that an instruction fills, as its operands tell. -/
def Operation.slot? (op : Operation) (operands : List Word) : Option Slot :=
  match op, operands with
  | .extInstImport, _ => none
  | .entryPoint, _ => some .entryPoints
  | .moduleVariable, _ => some .moduleVariables
  | .decorate, target :: _ => some (.decorations target)
  | .name, target :: _ => some (.name target)
  | .memberName, target :: member :: _ => some (.memberName target member)
  | .constant, _ :: id :: _ => some (.constant id)
  | .memberName, _ | .constant, _ => none
  | _, id :: _ => some (.type id)
  | _, [] => none

namespace ShaderModule

section Tables

variable {α : Type} {key other : Word}

theorem insert_eq_alter (table : WordMap α) (value : α) :
    table.insert key value = table.alter key fun _ => some value := by
  apply Std.ExtTreeMap.ext_getElem?
  intro id
  rw [getElem?_insert_entry, getElem?_alter_entry]

theorem insertIfNew_eq_alter (table : WordMap α) (value : α) :
    table.insertIfNew key value = table.alter key fun held => held.or (some value) := by
  apply Std.ExtTreeMap.ext_getElem?
  intro id
  rw [getElem?_insertIfNew_entry, getElem?_alter_entry]
  split_ifs
  · rfl
  · exact Option.or_none

/-- Changes of a table commute if they are made under different keys or if they commute
themselves. -/
theorem alter_comm (table : WordMap α) {change change' : Option α → Option α}
    (hsame : key = other → ∀ held, change' (change held) = change (change' held)) :
    (table.alter key change).alter other change' =
      (table.alter other change').alter key change := by
  apply Std.ExtTreeMap.ext_getElem?
  intro id
  simp only [getElem?_alter_entry]
  split_ifs with hother hkey hkey
  · exact hsame (hkey.trans hother.symm) _
  · rfl
  · rfl
  · rfl

theorem insert_comm (table : WordMap α) (hne : key ≠ other) (value value' : α) :
    (table.insert key value).insert other value' =
      (table.insert other value').insert key value := by
  simp only [insert_eq_alter]
  exact alter_comm table fun hsame => absurd hsame hne

theorem insertIfNew_comm (table : WordMap α) (hne : key ≠ other) (value value' : α) :
    (table.insertIfNew key value).insertIfNew other value' =
      (table.insertIfNew other value').insertIfNew key value := by
  simp only [insertIfNew_eq_alter]
  exact alter_comm table fun hsame => absurd hsame hne

end Tables

/-- A variable commutes with every declaration that is not a variable. -/
theorem declareVariable_declare (m : ShaderModule) (declared : Variable)
    {declaration : Declaration} (hother : declaration.slot? ≠ some .moduleVariables) :
    (m.declare declaration).declareVariable declared =
      (m.declareVariable declared).declare declaration := by
  rw [declareVariable_eq, declareVariable_eq]
  cases declaration with
  | moduleVariable _ => exact absurd rfl hother
  | _ => rfl

/-- Declarations for different slots can be added in either order: those of different tables touch
different parts of the module, and those of one table have different keys there. -/
theorem declare_comm (m : ShaderModule) (first second : Declaration)
    (hapart : Apart Declaration.slot? first second) :
    (m.declare first).declare second = (m.declare second).declare first := by
  by_cases hfirst : first.slot? = some .moduleVariables
  · cases first <;> cases hfirst
    exact (m.declareVariable_declare _ (hapart _ rfl)).symm
  by_cases hsecond : second.slot? = some .moduleVariables
  · cases second <;> cases hsecond
    exact m.declareVariable_declare _ hfirst
  cases first with
  | moduleVariable _ => exact absurd rfl hfirst
  | extInstImport _ _ => rfl
  | entryPoint entry =>
      cases second with
      | entryPoint other => exact absurd rfl (hapart _ rfl)
      | moduleVariable _ => exact absurd rfl hsecond
      | _ => rfl
  | name target text =>
      cases second with
      | name other text' =>
          have hne : target ≠ other := by
            rintro rfl
            exact hapart _ rfl rfl
          exact congrArg (fun names => { m with names }) (insert_comm m.names hne text text')
      | moduleVariable _ => exact absurd rfl hsecond
      | _ => rfl
  | memberName target member text =>
      cases second with
      | memberName other member' text' =>
          have hmembers : target = other → member ≠ member' := by
            rintro rfl rfl
            exact hapart _ rfl rfl
          refine congrArg (fun memberNames => { m with memberNames }) (alter_comm m.memberNames ?_)
          intro hsame held
          exact congrArg some (insert_comm _ (hmembers hsame) text text')
      | moduleVariable _ => exact absurd rfl hsecond
      | _ => rfl
  | decorate target decoration =>
      cases second with
      | decorate other decoration' =>
          have hne : target ≠ other := by
            rintro rfl
            exact hapart _ rfl rfl
          exact congrArg (fun decorations => { m with decorations })
            (alter_comm m.decorations fun hsame => absurd hsame hne)
      | moduleVariable _ => exact absurd rfl hsecond
      | _ => rfl
  | type declared =>
      cases second with
      | type other =>
          have hne : declared.id ≠ other.id := fun hsame =>
            hapart _ rfl (congrArg (fun id => some (Slot.type id)) hsame.symm)
          exact congrArg (fun types => { m with types })
            (insertIfNew_comm m.types hne declared other)
      | moduleVariable _ => exact absurd rfl hsecond
      | _ => rfl
  | constant declared =>
      cases second with
      | constant other =>
          have hne : declared.id ≠ other.id := fun hsame =>
            hapart _ rfl (congrArg (fun id => some (Slot.constant id)) hsame.symm)
          exact congrArg (fun constants => { m with constants })
            (insert_comm m.constants hne declared other)
      | moduleVariable _ => exact absurd rfl hsecond
      | _ => rfl

theorem ofDeclarations_eq_of_slots (header : Header) {declared declared' : List Declaration}
    (hperm : declared.Perm declared')
    (hslots : ∀ slot, declared.filter (·.slot? = some slot) =
      declared'.filter (·.slot? = some slot)) :
    ofDeclarations header declared = ofDeclarations header declared' :=
  foldl_eq_of_slots declare_comm hperm hslots (empty header)

end ShaderModule

section Streams

variable {names : NameTable} {context : Declaration.Context} {header : Header}
variable {code : UInt16 × List Word} {codes codes' : List (UInt16 × List Word)}

/-- The slot that an instruction with the given opcode and operands fills. -/
def NameTable.slot? (names : NameTable) (code : UInt16 × List Word) : Option Slot :=
  (names.operation? code.1).bind (·.slot? code.2)

/-- What an instruction with the given opcode and operands declares if it is accepted. -/
def NameTable.declaration? (names : NameTable) (code : UInt16 × List Word) : Option Declaration :=
  (names.operation? code.1).map fun op =>
    (Recognised.mk op ⟨0, code.1, code.2⟩).declaration names

/-- Whether an instruction with the given opcode and operands is accepted, wherever it stands. -/
def Declaration.Context.Accepts (context : Context) (code : UInt16 × List Word) : Prop :=
  ∃ declared, ofInstruction context ⟨0, code.1, code.2⟩ = .ok declared

theorem Declaration.Context.accepts_iff {insn : Instruction} :
    (∃ declared, ofInstruction context insn = .ok declared) ↔
      context.Accepts (insn.opcode, insn.operands) := by
  have hmoved : ofInstruction context insn = (ofInstruction context
      ⟨0, insn.opcode, insn.operands⟩).mapError (·.relabel ⟨fun _ => insn.offset, id⟩) :=
    ofInstruction_at_place context ⟨0, insn.opcode, insn.operands⟩ insn.offset
  simp only [hmoved, mapError_eq_ok_iff, Accepts]

theorem Recognised.slot?_declaration {i : Recognised} (hcount : i.HasOperands) :
    (i.declaration names).slot? = i.op.slot? i.insn.operands := by
  obtain ⟨op, offset, opcode, operands⟩ := i
  cases op
  all_goals
    rcases operands with _ | ⟨_, _ | ⟨_, _⟩⟩
    all_goals first | rfl | (simp [HasOperands, Operation.minOperands] at hcount)

/-- An accepted instruction fills the slot of what it declares. -/
theorem Declaration.Context.Accepts.bind_slot? (h : context.Accepts code) :
    (context.names.declaration? code).bind Declaration.slot? = context.names.slot? code := by
  obtain ⟨declared, hdeclared⟩ := h
  rw [ofInstruction_eq_read] at hdeclared
  unfold NameTable.declaration? NameTable.slot?
  cases hoperation : context.names.operation? code.1 with
  | none => rfl
  | some op =>
      simp only [hoperation] at hdeclared
      cases hread : (Recognised.mk op ⟨0, code.1, code.2⟩).read context with
      | error error =>
          rw [hread] at hdeclared
          cases hdeclared
      | ok result =>
          exact Recognised.slot?_declaration (Recognised.readable_of_read hread).1.1

theorem map_declaration_placed (names : NameTable) (place : Nat)
    (codes : List (UInt16 × List Word)) :
    ((Instruction.placed place codes).filterMap (Recognised.ofInstruction? names)).map
      (·.declaration names) = codes.filterMap names.declaration? := by
  have hdeclaration : ∀ insn : Instruction,
      (Recognised.ofInstruction? names insn).map (·.declaration names) =
        names.declaration? (insn.opcode, insn.operands) := by
    intro insn
    rw [Recognised.ofInstruction?, Option.map_map]
    rfl
  rw [List.map_filterMap, ← Instruction.map_placed place codes, List.filterMap_map,
    Instruction.map_placed]
  exact congrArg (List.filterMap · _) (funext hdeclaration)

/-- A stream of instructions declares what they declare by themselves, if all of them are
accepted. -/
theorem filterMapM_placed {place : Nat} {declared : List Declaration} :
    (Instruction.placed place codes).filterMapM (Declaration.ofInstruction context) =
        .ok declared ↔
      (∀ code ∈ codes, context.Accepts code) ∧
        declared = codes.filterMap context.names.declaration? := by
  have haccepted : (∃ declared, (Instruction.placed place codes).filterMapM
      (Declaration.ofInstruction context) = .ok declared) ↔
        ∀ code ∈ codes, context.Accepts code := by
    rw [filterMapM_succeeds_iff, ← Instruction.map_placed place codes, List.forall_mem_map]
    simp only [Declaration.Context.accepts_iff, Instruction.map_placed]
  have hdeclared : ∀ declared, (Instruction.placed place codes).filterMapM
      (Declaration.ofInstruction context) = .ok declared →
        declared = codes.filterMap context.names.declaration? := by
    intro declared hdeclared
    rw [← map_declaration_placed context.names place]
    exact (Declaration.filterMapM_ofInstruction hdeclared).2
  constructor
  · intro h
    exact ⟨haccepted.mp ⟨declared, h⟩, hdeclared declared h⟩
  · rintro ⟨hcodes, rfl⟩
    obtain ⟨declared, h⟩ := haccepted.mpr hcodes
    rw [h, hdeclared declared h]

theorem filter_declarations (hcodes : ∀ code ∈ codes, context.Accepts code) (slot : Slot) :
    (codes.filterMap context.names.declaration?).filter (·.slot? = some slot) =
      (codes.filter (context.names.slot? · = some slot)).filterMap context.names.declaration? := by
  rw [List.filter_filterMap, List.filterMap_filter]
  refine List.filterMap_congr fun code hcode => ?_
  have hslot := (hcodes code hcode).bind_slot?
  cases hdeclared : context.names.declaration? code with
  | none => simp
  | some declared =>
      rw [hdeclared, Option.bind_some] at hslot
      simp [Option.filter, hslot]

/-- A slot that no instruction fills needs no look at the order. -/
theorem filter_slot_eq (hperm : codes.Perm codes')
    (hslots : ∀ slot ∈ codes.filterMap names.slot?,
      codes.filter (names.slot? · = some slot) = codes'.filter (names.slot? · = some slot))
    (slot : Slot) :
    codes.filter (names.slot? · = some slot) = codes'.filter (names.slot? · = some slot) := by
  by_cases hslot : slot ∈ codes.filterMap names.slot?
  · exact hslots slot hslot
  · have hnone : codes.filter (names.slot? · = some slot) = [] := by
      rw [List.filter_eq_nil_iff]
      intro code hcode hfills
      exact hslot (List.mem_filterMap.mpr ⟨code, hcode, of_decide_eq_true hfills⟩)
    have hnone' := hperm.filter (names.slot? · = some slot)
    rw [hnone] at hnone' ⊢
    exact (List.nil_perm.mp hnone').symm

end Streams

namespace ShaderModule

variable {names : NameTable} {options : ParseOptions} {header : Header}
variable {body body' : List (UInt16 × List Word)}

theorem parse_written_eq_ok_iff {m : ShaderModule}
    (hfits : ∀ code ∈ body, code.2.length + 1 < 65536) :
    parse names options (header.words ++ written body) = .ok m ↔
      ∃ read, parseHeader options (header.words ++ written body) = .ok read ∧
        (∀ code ∈ body, Declaration.Context.Accepts
          ⟨names, read.bound, options.checkIdBound⟩ code) ∧
        m = ofDeclarations read (body.filterMap names.declaration?) := by
  rw [parse_eq_ok_iff]
  simp only [parseDeclarations_eq_ok_iff, scan_written header hfits, filterMapM_placed, true_and]
  refine exists_congr fun read => ?_
  constructor
  · rintro ⟨_, hheader, ⟨haccepted, rfl⟩, rfl⟩
    exact ⟨hheader, haccepted, rfl⟩
  · rintro ⟨hheader, haccepted, rfl⟩
    exact ⟨_, hheader, ⟨haccepted, rfl⟩, rfl⟩

theorem parseHeader_of_length_eq {rest rest' : List Word} (hlength : rest.length = rest'.length) :
    parseHeader options (header.words ++ rest) = parseHeader options (header.words ++ rest') := by
  unfold parseHeader
  rw [parse_header, parse_header, List.length_append, List.length_append, hlength]

/-- The order of instructions matters only within a slot. Two streams of the same instructions under
one header, with the instructions of every slot in the same order, are both refused or are read as
the same module. -/
theorem parse_reordered (names : NameTable) (options : ParseOptions) (header : Header)
    (hfits : ∀ code ∈ body, code.2.length + 1 < 65536) (hperm : body.Perm body')
    (hslots : ∀ slot ∈ body.filterMap names.slot?,
      body.filter (names.slot? · = some slot) = body'.filter (names.slot? · = some slot))
    (m : ShaderModule) :
    parse names options (header.words ++ written body) = .ok m ↔
      parse names options (header.words ++ written body') = .ok m := by
  have hfits' : ∀ code ∈ body', code.2.length + 1 < 65536 :=
    fun code hcode => hfits code (hperm.mem_iff.mpr hcode)
  have hheader : parseHeader options (header.words ++ written body) =
      parseHeader options (header.words ++ written body') :=
    parseHeader_of_length_eq (hperm.flatMap_right _).length_eq
  rw [parse_written_eq_ok_iff hfits, parse_written_eq_ok_iff hfits', hheader]
  refine exists_congr fun read => and_congr_right fun _ => ?_
  have haccepted : (∀ code ∈ body, Declaration.Context.Accepts
      ⟨names, read.bound, options.checkIdBound⟩ code) ↔
        ∀ code ∈ body', Declaration.Context.Accepts
          ⟨names, read.bound, options.checkIdBound⟩ code :=
    forall_congr' fun code => by rw [hperm.mem_iff]
  rw [← haccepted]
  refine and_congr_right fun hbody => ?_
  have hdeclared : ofDeclarations read (body.filterMap names.declaration?) =
      ofDeclarations read (body'.filterMap names.declaration?) := by
    refine ofDeclarations_eq_of_slots read (hperm.filterMap _) fun slot => ?_
    have hfilter := filter_declarations hbody slot
    have hfilter' := filter_declarations (haccepted.mp hbody) slot
    rw [hfilter, hfilter', filter_slot_eq hperm hslots]
  rw [hdeclared]

/-- A variable before its pointer type, this before the struct it points to, the struct before its
members, an array before its length and before its element, and names before everything. Two names
of one id keep their order. -/
theorem parse_reordered_forward :
    let body : List (UInt16 × List Word) := List.filterMap Statement.instruction?
      [.typeInt 2 32 false, .typeFloat 3 32, .constant 2 9 4, .typeArray 5 3 9,
        .typeStruct 6 [5, 3], .typePointer 7 2 6, .moduleVariable 7 8 2, .name 8 "first",
        .memberName 6 0 "weights", .decorate 8 33 [0], .name 8 "last"]
    let body' : List (UInt16 × List Word) := List.filterMap Statement.instruction?
      [.name 8 "first", .decorate 8 33 [0], .name 8 "last", .memberName 6 0 "weights",
        .moduleVariable 7 8 2, .typePointer 7 2 6, .typeStruct 6 [5, 3], .typeArray 5 3 9,
        .constant 2 9 4, .typeFloat 3 32, .typeInt 2 32 false]
    let header : Header := ⟨magicNumber, 0x10000, 0, 16, 0⟩
    (∀ code ∈ body, code.2.length + 1 < 65536) ∧ body.Perm body' ∧
    (∀ slot ∈ body.filterMap NameTable.core.slot?,
      body.filter (NameTable.core.slot? · = some slot) =
        body'.filter (NameTable.core.slot? · = some slot)) ∧
    ∃ m, m.name? 8 = some "last" ∧ parse .core {} (header.words ++ written body) = .ok m ∧
      parse .core {} (header.words ++ written body') = .ok m := by
  intro body body' header
  have hfits : ∀ code ∈ body, code.2.length + 1 < 65536 := by decide +kernel
  have hperm : body.Perm body' := by decide +kernel
  have hslots : ∀ slot ∈ body.filterMap NameTable.core.slot?,
      body.filter (NameTable.core.slot? · = some slot) =
        body'.filter (NameTable.core.slot? · = some slot) := by
    decide +kernel
  have hread : (parse .core {} (header.words ++ written body)).toOption.map (·.name? 8) =
      some (some "last") := by
    decide +kernel
  obtain ⟨m, hparsed, hname⟩ := Option.map_eq_some_iff.mp hread
  have hparsed := eq_ok_of_toOption hparsed
  exact ⟨hfits, hperm, hslots, m, hname, hparsed,
    (parse_reordered .core {} header hfits hperm hslots m).mp hparsed⟩

end ShaderModule

end ShaderReflection
