import ShaderReflection.Assembly
import ShaderReflection.Proofs.Module.Relabelling
import ShaderReflection.Proofs.Stream.Writing

/-!
Instructions that can be put into a stream, or taken out of it, without a change of what is read.
They are stepped over whatever their operands hold, and every other instruction is found again at
the place it has moved to.
-/

namespace ShaderReflection

/-- An instruction of a stream, by its opcode and operands: one that was there, or one that is put
in. -/
inductive Edit where
  | keep (code : UInt16 × List Word)
  | insert (code : UInt16 × List Word)

namespace Edit

/-- The instruction in the stream after the insertions. -/
def code : Edit → UInt16 × List Word
  | keep code | insert code => code

/-- The instruction in the stream before the insertions, if it was there. -/
def kept? : Edit → Option (UInt16 × List Word)
  | keep code => some code
  | insert _ => none

/-- The instruction that is put in, if it was not there before. -/
def inserted? : Edit → Option (UInt16 × List Word)
  | keep _ => none
  | insert code => some code

/-- How many words are put in before the word that had an index before the insertions. -/
def insertedBefore : List Edit → Nat → Nat
  | [], _ => 0
  | insert code :: rest, index => code.2.length + 1 + insertedBefore rest index
  | keep code :: rest, index =>
      if index < code.2.length + 1 then 0
      else insertedBefore rest (index - (code.2.length + 1))

/-- The place after the insertions of the word that was at a place before them. -/
def moved (edits : List Edit) (place : Nat) : Nat :=
  place + insertedBefore edits (place - headerLength)

variable (edits : List Edit)

/-- The instructions of a stream before the insertions. -/
def before : List (UInt16 × List Word) := edits.filterMap kept?

/-- The instructions of a stream after the insertions. -/
def after : List (UInt16 × List Word) := edits.map code

/-- The instructions that are put into a stream. -/
def inserted : List (UInt16 × List Word) := edits.filterMap inserted?

variable (code : UInt16 × List Word)

@[simp] theorem before_keep : before (keep code :: edits) = code :: before edits := rfl

@[simp] theorem before_insert : before (insert code :: edits) = before edits := rfl

@[simp] theorem inserted_keep : inserted (keep code :: edits) = inserted edits := rfl

@[simp] theorem inserted_insert :
    inserted (insert code :: edits) = code :: inserted edits := rfl

@[simp] theorem after_keep : after (keep code :: edits) = code :: after edits := rfl

@[simp] theorem after_insert : after (insert code :: edits) = code :: after edits := rfl

theorem length_written_before_le :
    (written (before edits)).length ≤ (written (after edits)).length := by
  induction edits with
  | nil => exact Nat.le_refl _
  | cons edit rest ih =>
      cases edit with
      | keep code =>
          simp only [before_keep, after_keep, written, List.flatMap_cons, List.length_append]
          exact Nat.add_le_add_left ih _
      | insert code =>
          simp only [before_insert, after_insert, written, List.flatMap_cons, List.length_append]
          exact Nat.le_add_left_of_le ih

end Edit

namespace Declaration

/-- Whether an instruction leaves a module as it is: its opcode stands for no operation, or it
imports a set of instructions and is accepted. -/
def Transparent (context : Context) (insn : Instruction) : Prop :=
  context.names.operation? insn.opcode = none ∨
    context.names.operation? insn.opcode = some .extInstImport ∧
      (ofInstruction context insn).isOk = true

instance (context : Context) (insn : Instruction) : Decidable (Transparent context insn) :=
  inferInstanceAs (Decidable (_ ∨ _))

variable {context : Context} {insn : Instruction}

/-- Whether an instruction is transparent does not depend on its place. -/
theorem Transparent.at_place (h : Transparent context insn) (place : Nat) :
    Transparent context { insn with offset := place } := by
  refine h.imp_right fun ⟨hoperation, haccepted⟩ => ⟨hoperation, ?_⟩
  obtain ⟨declared, hdeclared⟩ := exists_of_isOk haccepted
  rw [ofInstruction_at_place, hdeclared]
  rfl

theorem Transparent.apply_eq (h : Transparent context insn) (m : ShaderModule) :
    ShaderModule.apply context m insn = .ok m := by
  rcases h with hoperation | ⟨hoperation, haccepted⟩
  · rw [ShaderModule.apply, ofInstruction_eq_read, hoperation]
    rfl
  · obtain ⟨declared, hdeclared⟩ := exists_of_isOk haccepted
    rw [ShaderModule.apply, hdeclared]
    rw [ofInstruction_eq_read, hoperation] at hdeclared
    simp only at hdeclared
    cases hread : (Recognised.mk .extInstImport insn).read context with
    | error error =>
        rw [hread] at hdeclared
        cases hdeclared
    | ok result =>
        rw [hread] at hdeclared
        obtain rfl := Except.ok.inj hdeclared
        rw [(Recognised.readable_of_read hread).2]
        rfl

end Declaration

namespace ShaderModule

variable {context : Declaration.Context} {shift : Nat → Nat} {tail : List Word}

theorem passFrom_written (context : Declaration.Context) {cursor : Cursor}
    {code : UInt16 × List Word} {following : List Word} (hfits : code.2.length + 1 < 65536)
    (hrest : cursor.rest = Instruction.encode code.1 code.2 ++ following) (m : ShaderModule) :
    passFrom context cursor m =
      (apply context m ⟨cursor.offset, code.1, code.2⟩ >>=
        passFrom context (cursor.skip (code.2.length + 1))) :=
  passFrom_insn context m (Cursor.current_of_rest hfits hrest)

/-- A pass over a stream with insertions builds what a pass over the stream without them builds. At
an inserted instruction only the former takes a step, and it stays at its module. Whatever stands
behind the last instruction is read alike, as it has only moved. -/
theorem passFrom_edits {edits : List Edit} {cursor cursor' : Cursor}
    (hfits : ∀ edit ∈ edits, edit.code.2.length + 1 < 65536)
    (htransparent : ∀ code ∈ Edit.inserted edits,
      Declaration.Transparent context ⟨0, code.1, code.2⟩)
    (hrest : cursor.rest = written (Edit.before edits) ++ tail)
    (hrest' : cursor'.rest = written (Edit.after edits) ++ tail)
    (hshift : ∀ index, shift (cursor.offset + index) =
      cursor'.offset + index + Edit.insertedBefore edits index) (m : ShaderModule) :
    passFrom context cursor' m =
      (passFrom context cursor m).mapError (·.relabel ⟨shift, id⟩) := by
  induction edits generalizing cursor cursor' m with
  | nil =>
      refine passFrom_of_follows ⟨rfl, rfl⟩ ⟨hshift, ?_⟩
        (fun insn _ => NameTable.Agrees.refl _ insn) m
      rw [renumberFrom_id, hrest']
      exact hrest.symm
  | cons edit rest ih =>
      rw [List.forall_mem_cons] at hfits
      cases edit with
      | insert code =>
          have hfirst : code.2.length + 1 < 65536 := hfits.1
          rw [Edit.inserted_insert, List.forall_mem_cons] at htransparent
          have hinserted := htransparent.1.at_place cursor'.offset
          rw [Edit.after_insert, written_cons_append] at hrest'
          rw [passFrom_written context hfirst hrest', hinserted.apply_eq, ok_bind]
          refine ih hfits.2 htransparent.2 hrest (Cursor.rest_skip hrest') ?_ m
          intro index
          rw [hshift]
          simp only [Edit.insertedBefore, Cursor.skip]
          omega
      | keep code =>
          have hfirst : code.2.length + 1 < 65536 := hfits.1
          have hoffset : shift cursor.offset = cursor'.offset := by
            simpa [Edit.insertedBefore] using hshift 0
          have hbound : context.SameBound context := ⟨rfl, rfl⟩
          have hagrees := NameTable.Agrees.refl context.names ⟨cursor.offset, code.1, code.2⟩
          have happly := apply_relabel ⟨shift, id⟩ hbound hagrees m
          simp only [Instruction.relabel, hoffset, id] at happly
          rw [Edit.inserted_keep] at htransparent
          rw [Edit.before_keep, written_cons_append] at hrest
          rw [Edit.after_keep, written_cons_append] at hrest'
          rw [passFrom_written context hfirst hrest, passFrom_written context hfirst hrest',
            mapError_bind, happly]
          refine congrArg _ (funext fun m => ?_)
          refine ih hfits.2 htransparent (Cursor.rest_skip hrest) (Cursor.rest_skip hrest') ?_ m
          intro index
          have hlater := hshift (code.2.length + 1 + index)
          have hinside : ¬ code.2.length + 1 + index < code.2.length + 1 := by omega
          rw [Edit.insertedBefore, if_neg hinside, Nat.add_sub_cancel_left] at hlater
          simp only [Cursor.skip]
          rw [Nat.add_assoc, hlater]
          omega

theorem eq_of_parseHeader {header header' : Header} {body : List Word} {options : ParseOptions}
    (hread : parseHeader options (header.words ++ body) = .ok header') : header' = header := by
  by_cases hlong : options.maxWords < (header.words ++ body).length
  · rw [parseHeader_long hlong] at hread
    cases hread
  · rw [parseHeader_eq hlong, parse_header] at hread
    split_ifs at hread with hmagic
    · rw [ok_bind] at hread
      split_ifs at hread
      exact (Except.ok.inj hread).symm
    · cases hread

theorem parseHeader_congr {header : Header} {body body' : List Word} {options : ParseOptions}
    (hlength : (header.words ++ body).length ≤ options.maxWords)
    (hlength' : (header.words ++ body').length ≤ options.maxWords) :
    parseHeader options (header.words ++ body') = parseHeader options (header.words ++ body) := by
  rw [parseHeader_eq (Nat.not_lt.mpr hlength), parseHeader_eq (Nat.not_lt.mpr hlength'),
    parse_header, parse_header]

/-- Putting transparent instructions into a stream, anywhere between its instructions, changes
neither whether it is read nor what is read. If it is refused, then for the same cause, at the place
that the cause has moved to. Behind the last instruction that matters here anything may stand, so
the stream need not be one of whole instructions. -/
theorem parse_edits (names : NameTable) (options : ParseOptions) (header : Header)
    (edits : List Edit) (tail : List Word)
    (hfits : ∀ edit ∈ edits, edit.code.2.length + 1 < 65536)
    (htransparent : ∀ code ∈ Edit.inserted edits,
      Declaration.Transparent ⟨names, header.bound, options.checkIdBound⟩ ⟨0, code.1, code.2⟩)
    (hlength : (header.words ++ (written (Edit.after edits) ++ tail)).length ≤ options.maxWords) :
    parse names options (header.words ++ (written (Edit.after edits) ++ tail)) =
      (parse names options (header.words ++ (written (Edit.before edits) ++ tail))).mapError
        (·.relabel ⟨Edit.moved edits, id⟩) := by
  have hbefore := Edit.length_written_before_le edits
  have hlength' : (header.words ++ (written (Edit.before edits) ++ tail)).length ≤
      options.maxWords := by
    simp only [List.length_append] at hlength ⊢
    omega
  refine parse_relabel (parseHeader_congr hlength' hlength) fun read hread => ?_
  obtain rfl := eq_of_parseHeader hread
  refine passFrom_edits hfits htransparent rfl rfl ?_ (empty read)
  intro index
  simp only [Cursor.ofWords, Edit.moved, Nat.add_sub_cancel_left]

/-- A name and a type among an unknown opcode whose operands look like another name, and the import
of a set. The same stream is refused if an instruction without its operands or a part of one stands
behind them. -/
theorem parse_edits_around_name :
    let header : Header := ⟨magicNumber, 0x10000, 0, 16, 0⟩
    let edits : List Edit :=
      [.insert (17, [1]), .keep (5, [4, 0x61]), .insert (16, [Instruction.firstWord 5 3, 4, 0x62]),
        .insert (11, 1 :: Literal.encode "GLSL.std.450"), .keep (22, [2, 32])]
    let stream (codes : List (UInt16 × List Word)) (tail : List Word) : List Word :=
      header.words ++ (written codes ++ tail)
    let short : List Word := [Instruction.firstWord 5 2, 4]
    let cut : List Word := [Instruction.firstWord 5 9, 4]
    (∀ edit ∈ edits, edit.code.2.length + 1 < 65536) ∧
    (∀ code ∈ Edit.inserted edits,
      Declaration.Transparent ⟨.core, header.bound, true⟩ ⟨0, code.1, code.2⟩) ∧
    (∃ m, m.name? 4 = some "a" ∧ parse .core {} (stream (Edit.before edits) []) = .ok m ∧
      parse .core {} (stream (Edit.after edits) []) = .ok m) ∧
    parse .core {} (stream (Edit.before edits) short) =
      .error (.malformed 11 (some 5) (.missingOperand .name 1)) ∧
    parse .core {} (stream (Edit.after edits) short) =
      .error (.malformed 23 (some 5) (.missingOperand .name 1)) ∧
    parse .core {} (stream (Edit.before edits) cut) =
      .error (.malformed 11 (some 5) (.overrun 9 2)) ∧
    parse .core {} (stream (Edit.after edits) cut) =
      .error (.malformed 23 (some 5) (.overrun 9 2)) := by
  intro header edits stream short cut
  have hfits : ∀ edit ∈ edits, edit.code.2.length + 1 < 65536 := by decide +kernel
  have htransparent : ∀ code ∈ Edit.inserted edits,
      Declaration.Transparent ⟨.core, header.bound, true⟩ ⟨0, code.1, code.2⟩ := by
    decide +kernel
  have hread : (parse .core {} (stream (Edit.before edits) [])).toOption.map (·.name? 4) =
      some (some "a") := by
    decide +kernel
  have hshort : (parse .core {} (stream (Edit.before edits) short)).map (fun _ => ()) =
      .error (.malformed 11 (some 5) (.missingOperand .name 1)) := by
    decide +kernel
  have hcut : (parse .core {} (stream (Edit.before edits) cut)).map (fun _ => ()) =
      .error (.malformed 11 (some 5) (.overrun 9 2)) := by
    decide +kernel
  have hmoved : Edit.moved edits 11 = 23 := by decide +kernel
  have hedited : ∀ tail, (stream (Edit.after edits) tail).length ≤ maxModuleWords →
      parse .core {} (stream (Edit.after edits) tail) =
        (parse .core {} (stream (Edit.before edits) tail)).mapError
          (·.relabel ⟨Edit.moved edits, id⟩) :=
    fun tail => parse_edits .core {} header edits tail hfits htransparent
  obtain ⟨m, hparsed, hname⟩ := Option.map_eq_some_iff.mp hread
  have hparsed := eq_ok_of_toOption hparsed
  have hshort := map_eq_error_iff.mp hshort
  have hcut := map_eq_error_iff.mp hcut
  refine ⟨hfits, htransparent, ⟨m, hname, hparsed, ?_⟩, hshort, ?_, hcut, ?_⟩
  · rw [hedited [] (by decide +kernel), hparsed]
    rfl
  · rw [hedited short (by decide +kernel), hshort]
    simp only [Except.mapError, ParseError.relabel, hmoved, Option.map_some, id]
  · rw [hedited cut (by decide +kernel), hcut]
    simp only [Except.mapError, ParseError.relabel, hmoved, Option.map_some, id]

end ShaderModule

end ShaderReflection
