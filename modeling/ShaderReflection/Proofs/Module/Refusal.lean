import ShaderReflection.Proofs.Module.Records
import ShaderReflection.Proofs.Stream.Reading
import ShaderReflection.Proofs.Text.Literal

/-!
Why modules are refused. A module that is within the limits is refused at the first place where
nothing can be read or where an instruction fails one of its checks. The checks look at the
instruction alone, never at what the instructions before it declared.
-/

namespace ShaderReflection

/-- The place in the stream that an error names, if it is about a place. -/
def ParseError.place? : ParseError → Option Nat
  | .idOutOfBounds _ _ place | .malformed place _ _ => some place
  | _ => none

namespace Declaration.Context

variable {context : Context} {insn : Instruction} {id : Ident} {error : ParseError}

/-- Whether an id is at or above the bound although bounds are checked. -/
def Outside (context : Context) (id : Ident) : Prop :=
  context.checkIdBound = true ∧ context.bound ≤ id

theorem checkId_eq_error_iff :
    context.checkId insn id = .error error ↔
      context.Outside id ∧ error = .idOutOfBounds id context.bound insn.offset := by
  unfold checkId Outside
  by_cases houtside : context.checkIdBound = true ∧ context.bound ≤ id
  · simp [houtside, eq_comm]
  · simp [houtside]

theorem checkId_eq_ok_iff {result : Unit} :
    context.checkId insn id = .ok result ↔ ¬ context.Outside id := by
  unfold checkId Outside
  by_cases houtside : context.checkIdBound = true ∧ context.bound ≤ id
  · simp [houtside]
  · simp [houtside]

theorem checkIds_eq_error_iff {ids : List Ident} :
    context.checkIds insn ids = .error error ↔
      ∃ before id after, ids = before ++ id :: after ∧
        (∀ earlier ∈ before, ¬ context.Outside earlier) ∧ context.Outside id ∧
        error = .idOutOfBounds id context.bound insn.offset := by
  rw [checkIds, forM_eq_error_iff, FailsFirst]
  simp only [checkId_eq_error_iff, checkId_eq_ok_iff, exists_const]

theorem checkIds_eq_ok_iff {ids : List Ident} :
    context.checkIds insn ids = .ok () ↔ ∀ id ∈ ids, ¬ context.Outside id := by
  rw [checkIds, forM_eq_ok_iff]
  simp only [checkId_eq_ok_iff]

end Declaration.Context

namespace Recognised

/-- Whether an instruction has the operands that its operation reads. -/
def HasOperands (i : Recognised) : Prop := i.op.minOperands ≤ i.insn.operands.length

/-- Whether the literal of an instruction ends, if the operation has one. -/
def LiteralEnds (i : Recognised) : Prop :=
  ∀ start, literalStart? i.op = some start → Literal.Ends i.insn.operands start

/-- The error that the first failing check of an instruction reports. The number of operands is
checked first, then the id that is defined or targeted, then the literal, and last the interface
ids in order. -/
inductive Refused (context : Declaration.Context) (i : Recognised) : ParseError → Prop
  | missingOperand : ¬ i.HasOperands →
      Refused context i (.malformed i.insn.offset (some i.insn.opcode)
        (.missingOperand i.op i.insn.operands.length))
  | target : i.HasOperands → context.Outside i.target →
      Refused context i (.idOutOfBounds i.target context.bound i.insn.offset)
  | unterminated : i.HasOperands → ¬ context.Outside i.target → ¬ i.LiteralEnds →
      Refused context i (.malformed i.insn.offset (some i.insn.opcode) (.unterminatedString i.op))
  | interface {before id after} : i.HasOperands → ¬ context.Outside i.target → i.LiteralEnds →
      i.interface = before ++ id :: after → (∀ earlier ∈ before, ¬ context.Outside earlier) →
      context.Outside id → Refused context i (.idOutOfBounds id context.bound i.insn.offset)

variable {context : Declaration.Context} {i : Recognised} {error : ParseError}

theorem checkCount_eq_error_iff :
    i.checkCount = .error error ↔ ¬ i.HasOperands ∧
      error = .malformed i.insn.offset (some i.insn.opcode)
        (.missingOperand i.op i.insn.operands.length) := by
  unfold checkCount HasOperands
  split_ifs with hfew
  · simp [hfew, eq_comm]
  · simp [Nat.le_of_not_lt hfew]

theorem checkCount_eq_ok_iff {result : Unit} : i.checkCount = .ok result ↔ i.HasOperands := by
  unfold checkCount HasOperands
  split_ifs with hfew
  · simp [hfew]
  · simp [Nat.le_of_not_lt hfew]

theorem checkLiteral_eq :
    i.checkLiteral = .ok () ∧ i.LiteralEnds ∨
      i.checkLiteral = .error (.malformed i.insn.offset (some i.insn.opcode)
        (.unterminatedString i.op)) ∧ ¬ i.LiteralEnds := by
  unfold checkLiteral LiteralEnds
  cases hstart : literalStart? i.op with
  | none => simp
  | some start =>
      by_cases hends : Literal.Ends i.insn.operands start
      · have hsome := Literal.decode?_isSome_iff.mpr hends
        simp [hsome, hends]
      · have hnone := Literal.decode?_eq_none_iff.mpr hends
        simp [hnone, hends]

theorem checkLiteral_eq_error_iff :
    i.checkLiteral = .error error ↔ ¬ i.LiteralEnds ∧
      error = .malformed i.insn.offset (some i.insn.opcode) (.unterminatedString i.op) := by
  rcases i.checkLiteral_eq with ⟨hcheck, hends⟩ | ⟨hcheck, hends⟩
  · simp [hcheck, hends]
  · simp [hcheck, hends, eq_comm]

theorem checkLiteral_eq_ok_iff {result : Unit} : i.checkLiteral = .ok result ↔ i.LiteralEnds := by
  rcases i.checkLiteral_eq with ⟨hcheck, hends⟩ | ⟨hcheck, hends⟩
  · simp [hcheck, hends]
  · simp [hcheck, hends]

theorem read_eq_error_iff : i.read context = .error error ↔ i.Refused context error := by
  have hpure : ∀ declared : Declaration,
      (pure declared : Except ParseError Declaration) ≠ .error error := by
    intro declared h
    cases h
  unfold read
  simp only [bind_eq_error_iff, checkCount_eq_error_iff, checkCount_eq_ok_iff,
    Declaration.Context.checkId_eq_error_iff, Declaration.Context.checkId_eq_ok_iff,
    checkLiteral_eq_error_iff, checkLiteral_eq_ok_iff,
    Declaration.Context.checkIds_eq_error_iff, exists_const, hpure, and_false, or_false]
  constructor
  · rintro (⟨hfew, rfl⟩ | ⟨hcount, ⟨houtside, rfl⟩ | ⟨htarget, ⟨hends, rfl⟩ | ⟨hends, before, id,
      after, hinterface, hbefore, houtside, rfl⟩⟩⟩)
    · exact .missingOperand hfew
    · exact .target hcount houtside
    · exact .unterminated hcount htarget hends
    · exact .interface hcount htarget hends hinterface hbefore houtside
  · intro h
    cases h with
    | missingOperand hfew => exact Or.inl ⟨hfew, rfl⟩
    | target hcount houtside => exact Or.inr ⟨hcount, Or.inl ⟨houtside, rfl⟩⟩
    | unterminated hcount htarget hends =>
        exact Or.inr ⟨hcount, Or.inr ⟨htarget, Or.inl ⟨hends, rfl⟩⟩⟩
    | @interface before id after hcount htarget hends hinterface hbefore houtside =>
        exact Or.inr ⟨hcount, Or.inr ⟨htarget, Or.inr ⟨hends, before, id, after, hinterface,
          hbefore, houtside, rfl⟩⟩⟩

/-- An instruction that passes every check declares what its operands say. -/
theorem read_of_checks (hcount : i.HasOperands) (htarget : ¬ context.Outside i.target)
    (hends : i.LiteralEnds) (hinterface : ∀ id ∈ i.interface, ¬ context.Outside id) :
    i.read context = .ok (i.declaration context.names) := by
  cases hread : i.read context with
  | ok declared =>
      have hdeclared := (readable_of_read hread).2
      rw [hdeclared]
  | error error =>
      exfalso
      cases read_eq_error_iff.mp hread with
      | missingOperand hfew => exact hfew hcount
      | target _ houtside => exact htarget houtside
      | unterminated _ _ hopen => exact hopen hends
      | @interface before id after _ _ _ hids _ houtside =>
          apply hinterface id ?_ houtside
          rw [hids]
          simp

/-- The errors of an instruction name its place, and the malformed ones its opcode. -/
theorem Refused.located (h : i.Refused context error) :
    error.place? = some i.insn.offset ∧
      ∀ place opcode fault, error = .malformed place opcode fault →
        opcode = some i.insn.opcode := by
  cases h with
  | missingOperand | unterminated =>
      refine ⟨rfl, ?_⟩
      rintro place opcode fault ⟨⟩
      rfl
  | target | interface =>
      refine ⟨rfl, ?_⟩
      rintro place opcode fault ⟨⟩

end Recognised

namespace Declaration

/-- Whether an instruction is refused: it is recognised and fails a check. -/
def Refuses (context : Context) (insn : Instruction) (error : ParseError) : Prop :=
  ∃ i, Recognised.ofInstruction? context.names insn = some i ∧ i.Refused context error

theorem ofInstruction_eq_error_iff {context : Context} {insn : Instruction} {error : ParseError} :
    ofInstruction context insn = .error error ↔ Refuses context insn error := by
  rw [ofInstruction_eq, Refuses]
  cases hrecognised : Recognised.ofInstruction? context.names insn with
  | none => simp
  | some i =>
      simp only [map_eq_error_iff, Recognised.read_eq_error_iff, Option.some.injEq,
        exists_eq_left']

theorem ofInstruction_succeeds_iff {context : Context} {insn : Instruction} :
    (∃ declared, ofInstruction context insn = .ok declared) ↔
      ∀ error, ¬ Refuses context insn error := by
  simp only [← ofInstruction_eq_error_iff]
  cases ofInstruction context insn with
  | error error => simp
  | ok declared => simp

theorem Refuses.located {context : Context} {insn : Instruction} {error : ParseError}
    (h : Refuses context insn error) :
    error.place? = some insn.offset ∧
      ∀ place opcode fault, error = .malformed place opcode fault → opcode = some insn.opcode := by
  obtain ⟨i, hrecognised, hrefused⟩ := h
  obtain ⟨op, -, rfl⟩ := Option.map_eq_some_iff.mp hrecognised
  exact hrefused.located

end Declaration

/-- The first place of a stream where reading it is given up, and why: everything before it is whole
instructions that are accepted, and either nothing can be read there or the instruction there is
refused. -/
structure FirstOffence (context : Declaration.Context) (words : List Word) (place : Nat)
    (error : ParseError) : Prop where
  before : ∃ insns, Consecutive headerLength insns place ∧
    insns.flatMap Instruction.words = (words.take place).drop headerLength ∧
    ∀ insn ∈ insns, insn.wordCount < 65536 ∧ ∀ error, ¬ Declaration.Refuses context insn error
  offends : Cursor.Blocked words place error ∨
    ∃ insn, insn.offset = place ∧ insn.wordCount < 65536 ∧ insn.words <+: words.drop place ∧
      Declaration.Refuses context insn error
  located : error.place? = some place
  opcode : ∃ first, words[place]? = some first ∧
    ∀ other opcode fault, error = .malformed other opcode fault →
      opcode = some (Instruction.opcodeOf first)

section Streams

variable {context : Declaration.Context} {words : List Word} {place : Nat} {error : ParseError}

theorem Cursor.Blocked.located (h : Cursor.Blocked words place error) :
    error.place? = some place ∧
      ∃ first, words[place]? = some first ∧
        ∀ other opcode fault, error = .malformed other opcode fault →
          opcode = some (Instruction.opcodeOf first) := by
  obtain ⟨first, hfirst, ⟨-, rfl⟩ | ⟨-, rfl⟩⟩ := h
  all_goals
    refine ⟨rfl, first, hfirst, ?_⟩
    rintro other opcode fault ⟨⟩
    rfl

theorem getElem?_of_words_at {insn : Instruction} (hwords : insn.words <+: words.drop place) :
    words[place]? = some (Instruction.firstWord insn.opcode insn.wordCount) := by
  obtain ⟨following, hfollowing⟩ := hwords
  rw [← List.head?_drop, ← hfollowing]
  rfl

/-- An offence after accepted instructions is the first one, wherever the error may point. -/
theorem FirstOffence.intro {insns : List Instruction}
    (hconsecutive : Consecutive headerLength insns place)
    (hwords : insns.flatMap Instruction.words <+: words.drop headerLength)
    (haccepted : ∀ insn ∈ insns,
      insn.wordCount < 65536 ∧ ∀ error, ¬ Declaration.Refuses context insn error)
    (hoffends : Cursor.Blocked words place error ∨
      ∃ insn, insn.offset = place ∧ insn.wordCount < 65536 ∧ insn.words <+: words.drop place ∧
        Declaration.Refuses context insn error) :
    FirstOffence context words place error := by
  have hencoded := hconsecutive.encoded_iff.mpr hwords
  rcases hoffends with hblocked | ⟨insn, rfl, hcount, hinsn, hrefuses⟩
  · obtain ⟨hlocated, hopcode⟩ := hblocked.located
    exact ⟨⟨insns, hconsecutive, hencoded, haccepted⟩, Or.inl hblocked, hlocated, hopcode⟩
  · obtain ⟨hlocated, hopcode⟩ := hrefuses.located
    refine ⟨⟨insns, hconsecutive, hencoded, haccepted⟩,
      Or.inr ⟨insn, rfl, hcount, hinsn, hrefuses⟩, hlocated, _, getElem?_of_words_at hinsn, ?_⟩
    intro other opcode fault herror
    rw [Instruction.opcodeOf_firstWord]
    exact hopcode other opcode fault herror

/-- What a tiling says about the instructions before one of its own, and about that one. -/
theorem Tiling.before_insn {start stop : Nat} {before after : List Instruction}
    {insn : Instruction} {ending : Option ParseError}
    (h : Tiling words start (before ++ insn :: after) ending stop) :
    Consecutive start before insn.offset ∧
      before.flatMap Instruction.words <+: words.drop start ∧
      insn.words <+: words.drop insn.offset := by
  obtain ⟨between, hbefore, hoffset, -⟩ := consecutive_append_iff.mp h.consecutive
  subst hoffset
  have hwords := h.consecutive.encoded_iff.mp h.encoded
  rw [List.flatMap_append, List.flatMap_cons] at hwords
  have hlength := hbefore.stop_eq
  obtain ⟨following, hfollowing⟩ := hwords
  rw [List.append_assoc] at hfollowing
  refine ⟨hbefore, ⟨_, hfollowing⟩, ?_⟩
  rw [hlength, ← List.drop_drop, ← hfollowing, List.drop_left' rfl, List.append_assoc]
  exact List.prefix_append _ _

theorem Tiling.wordCount_lt {start stop : Nat} {insns : List Instruction}
    {ending : Option ParseError} (h : Tiling words start insns ending stop) {insn : Instruction}
    (hinsn : insn ∈ insns) : insn.wordCount < 65536 := by
  obtain ⟨first, -, -, hcount, -⟩ := h.counted insn hinsn
  rw [← hcount]
  exact Instruction.countOf_lt first

theorem scan_tiling (hheader : headerLength ≤ words.length) :
    ∃ stop, Tiling words headerLength (scan words).1 (scan words).2 stop := by
  obtain ⟨stop, -, htiling⟩ := (Cursor.ofWords words).scanFrom_tiling hheader
  exact ⟨stop, htiling⟩

end Streams

namespace ShaderModule

variable {context : Declaration.Context} {words : List Word} {error : ParseError}

theorem accepted_iff {insns : List Instruction} :
    (∃ declared, insns.filterMapM (Declaration.ofInstruction context) = .ok declared) ↔
      ∀ insn ∈ insns, ∀ error, ¬ Declaration.Refuses context insn error := by
  simp only [filterMapM_succeeds_iff, Declaration.ofInstruction_succeeds_iff]

theorem parseDeclarations_eq_error_iff :
    parseDeclarations context words = .error error ↔
      FailsFirst (Declaration.ofInstruction context) (scan words).1 error ∨
        (∀ insn ∈ (scan words).1, ∀ error, ¬ Declaration.Refuses context insn error) ∧
          (scan words).2 = some error := by
  rw [← accepted_iff, ← filterMapM_eq_error_iff]
  unfold parseDeclarations
  obtain ⟨insns, ending⟩ := scan words
  rw [bind_eq_error_iff]
  refine or_congr_right ?_
  cases ending with
  | none => simp [pure, Except.pure]
  | some other => simp [throw, throwThe, MonadExceptOf.throw]

/-- Reading the declarations of a stream fails exactly with the first offence. In one direction, the
instructions that were scanned tile the stream up to the offence. In the other, what comes before an
offence is scanned again as it is. -/
theorem parseDeclarations_fails_iff (hheader : headerLength ≤ words.length) :
    parseDeclarations context words = .error error ↔
      ∃ place, FirstOffence context words place error := by
  rw [parseDeclarations_eq_error_iff]
  constructor
  · obtain ⟨stop, htiling⟩ := scan_tiling hheader
    rintro (⟨before, insn, after, hinsns, hbefore, hfails⟩ | ⟨haccepted, hending⟩)
    · have hmember : ∀ other, other ∈ before ∨ other = insn → other ∈ (scan words).1 := by
        intro other hother
        rw [hinsns, List.mem_append, List.mem_cons]
        exact hother.imp_right Or.inl
      have hcounts : ∀ other, other ∈ before ∨ other = insn → other.wordCount < 65536 :=
        fun other hother => htiling.wordCount_lt (hmember other hother)
      rw [hinsns] at htiling
      obtain ⟨hconsecutive, hwords, hinsn⟩ := htiling.before_insn
      refine ⟨insn.offset, .intro hconsecutive hwords ?_ ?_⟩
      · intro other hother
        exact ⟨hcounts other (Or.inl hother),
          Declaration.ofInstruction_succeeds_iff.mp (hbefore other hother)⟩
      · exact Or.inr ⟨insn, rfl, hcounts insn (Or.inr rfl), hinsn,
          Declaration.ofInstruction_eq_error_iff.mp hfails⟩
    · refine ⟨stop, .intro htiling.consecutive ?_ ?_ ?_⟩
      · exact htiling.consecutive.encoded_iff.mp htiling.encoded
      · intro insn hinsn
        exact ⟨htiling.wordCount_lt hinsn, haccepted insn hinsn⟩
      · exact Or.inl (htiling.blocked error hending).2
  · rintro ⟨place, ⟨insns, hconsecutive, hencoded, haccepted⟩, hoffends, -, -⟩
    have hscan := Cursor.scanFrom_consecutive hconsecutive (fun insn hinsn => (haccepted insn hinsn).1)
      (hconsecutive.encoded_iff.mp hencoded)
    rw [← Cursor.ofWords_eq_atPlace] at hscan
    have hinsns := congrArg Prod.fst hscan
    have hending := congrArg Prod.snd hscan
    rcases hoffends with hblocked | ⟨insn, hoffset, hcount, hinsn, hrefuses⟩
    · rw [Cursor.scanFrom_blocked hblocked] at hinsns hending
      refine Or.inr ⟨?_, hending⟩
      intro insn hinsn
      change insn ∈ ((Cursor.ofWords words).scanFrom []).1 at hinsn
      rw [hinsns, List.append_nil] at hinsn
      exact (haccepted insn hinsn).2
    · rw [Cursor.scanFrom_insn hoffset hcount hinsn] at hinsns
      refine Or.inl ⟨insns, insn, _, hinsns, ?_, Declaration.ofInstruction_eq_error_iff.mpr hrefuses⟩
      intro earlier hearlier
      exact Declaration.ofInstruction_succeeds_iff.mpr (haccepted earlier hearlier).2

theorem exists_header (hheader : headerLength ≤ words.length) :
    ∃ (header : Header) (body : List Word), words = header.words ++ body := by
  match words, hheader with
  | magic :: version :: generator :: bound :: schema :: body, _ =>
      exact ⟨⟨magic, version, generator, bound, schema⟩, body, rfl⟩

theorem parse_header (header : Header) (body : List Word) :
    Header.parse (header.words ++ body) =
      if header.magic = magicNumber then .ok header else .error (.badMagic header.magic) := rfl

theorem parse_short (hshort : words.length < headerLength) :
    Header.parse words = .error (.tooShort words.length) := by
  match words, hshort with
  | [], _ | [_], _ | [_, _], _ | [_, _, _], _ | [_, _, _, _], _ => rfl

theorem parseHeader_long {options : ParseOptions} (hlong : options.maxWords < words.length) :
    parseHeader options words = .error (.tooManyWords words.length options.maxWords) := by
  unfold parseHeader
  rw [if_pos hlong]
  rfl

theorem parseHeader_eq {options : ParseOptions} (hlong : ¬ options.maxWords < words.length) :
    parseHeader options words =
      (Header.parse words >>= fun header =>
        if options.maxIdBound < header.bound then
          .error (.idBoundTooLarge header.bound options.maxIdBound)
        else .ok header) := by
  unfold parseHeader
  rw [if_neg hlong]
  cases Header.parse words with
  | error error => rfl
  | ok header =>
      simp only [ok_bind]
      split_ifs <;> rfl

theorem parse_of_header_error {names : NameTable} {options : ParseOptions}
    (hheader : parseHeader options words = .error error) :
    parse names options words = .error error := by
  unfold parse
  rw [hheader, error_bind]

theorem parse_eq_error_iff_of_header {names : NameTable} {options : ParseOptions} {header : Header}
    (hheader : parseHeader options words = .ok header) :
    parse names options words = .error error ↔
      parseDeclarations ⟨names, header.bound, options.checkIdBound⟩ words = .error error := by
  unfold parse
  rw [hheader, ok_bind, bind_eq_error_iff]
  simp [pure, Except.pure]

/-- A module is refused with the first error there is: for its length, then for its header, and else
for the first offence of its stream, which names the place of the offence and, if the instruction
there is malformed, its opcode. -/
theorem parse_fails_at_first_offence (names : NameTable) (options : ParseOptions)
    (words : List Word) :
    if options.maxWords < words.length then
      parse names options words = .error (.tooManyWords words.length options.maxWords)
    else if words.length < headerLength then
      parse names options words = .error (.tooShort words.length)
    else ∃ (header : Header) (body : List Word), words = header.words ++ body ∧
      if header.magic ≠ magicNumber then
        parse names options words = .error (.badMagic header.magic)
      else if options.maxIdBound < header.bound then
        parse names options words = .error (.idBoundTooLarge header.bound options.maxIdBound)
      else ∀ error, parse names options words = .error error ↔
        ∃ place, FirstOffence ⟨names, header.bound, options.checkIdBound⟩ words place error := by
  split_ifs with hlong hshort
  · exact parse_of_header_error (parseHeader_long hlong)
  · apply parse_of_header_error
    rw [parseHeader_eq hlong, parse_short hshort, error_bind]
  · have hlength := Nat.le_of_not_lt hshort
    obtain ⟨header, body, rfl⟩ := exists_header hlength
    have hheader := parseHeader_eq hlong
    rw [parse_header] at hheader
    refine ⟨header, body, rfl, ?_⟩
    split_ifs with hmagic hbound
    · apply parse_of_header_error
      rw [hheader, if_neg hmagic, error_bind]
    · apply parse_of_header_error
      rw [hheader, if_pos (not_not.mp hmagic), ok_bind, if_pos hbound]
    · intro error
      rw [if_pos (not_not.mp hmagic), ok_bind, if_neg hbound] at hheader
      rw [parse_eq_error_iff_of_header hheader, parseDeclarations_fails_iff hlength]

end ShaderModule

end ShaderReflection
