import ShaderReflection.Assembly
import ShaderReflection.Proofs.Module.Relabelling

/-!
Instructions are told apart by their mnemonics. A module whose opcodes are numbered in another way,
read with a table that has the mnemonics under the other numbers, is the same module.
-/

namespace ShaderReflection

/-- The leading `Op` of a mnemonic can be left out. -/
theorem Operation.ofMnemonic?_mnemonic (op : Operation) :
    ofMnemonic? op.mnemonic = some op ∧ ofMnemonic? op.stem = some op := by
  cases op <;> decide +kernel

namespace NameTable

/-- The conditions as tests. A quantifier over words could also be decided by trying every word. -/
theorem agrees_iff {names names' : NameTable} {change : UInt16 → UInt16} {insn : Instruction} :
    names'.Agrees names change insn ↔
      names'.operation? (change insn.opcode) = names.operation? insn.opcode ∧
      (names.operation? insn.opcode = some .decorate →
        (insn.operands[1]?.all fun kind =>
          names'.decorationName kind == names.decorationName kind) = true) := by
  have hkinds : (insn.operands[1]?.all fun kind =>
      names'.decorationName kind == names.decorationName kind) = true ↔
        ∀ kind, insn.operands[1]? = some kind →
          names'.decorationName kind = names.decorationName kind := by
    cases insn.operands[1]? <;> simp
  rw [hkinds]
  constructor
  · intro h
    exact ⟨h.operation, h.decoration⟩
  · rintro ⟨hoperation, hdecoration⟩
    exact ⟨hoperation, hdecoration⟩

instance (names names' : NameTable) (change : UInt16 → UInt16) (insn : Instruction) :
    Decidable (names'.Agrees names change insn) :=
  decidable_of_iff _ agrees_iff.symm

end NameTable

namespace ShaderModule

/-- Changing the opcodes leaves the header as it is. -/
theorem parseHeader_renumber (change : UInt16 → UInt16) (options : ParseOptions)
    (words : List Word) :
    parseHeader options (renumber change words) = parseHeader options words := by
  have hparse : Header.parse (renumber change words) = Header.parse words := by
    by_cases hshort : words.length < headerLength
    · have hshort' : (renumber change words).length < headerLength := by rwa [length_renumber]
      rw [parse_short hshort, parse_short hshort', length_renumber]
    · obtain ⟨header, body, rfl⟩ := exists_header (Nat.le_of_not_lt hshort)
      have hrenumbered : renumber change (header.words ++ body) =
          header.words ++ renumberFrom change body := by
        have hlength : header.words.length = headerLength := rfl
        rw [renumber, List.take_left' hlength, List.drop_left' hlength]
      rw [hrenumbered, parse_header, parse_header]
  unfold parseHeader
  rw [hparse, length_renumber]

/-- What is read does not depend on the numbers of opcodes. If a table gives the new opcodes of a
module the operations that another table gives the old ones, and the decorations in it the same
names, then both read the same, up to the opcode that an error reports. -/
theorem parse_renumber (names names' : NameTable) (options : ParseOptions) (words : List Word) :
    (∀ change : UInt16 → UInt16,
      (∀ insn ∈ (scan words).1, names'.Agrees names change insn) →
        parse names' options (renumber change words) =
          (parse names options words).mapError (·.relabel ⟨id, change⟩)) ∧
    ((∀ insn ∈ (scan words).1, names'.Agrees names id insn) →
      parse names' options words = parse names options words) := by
  have hchanged : ∀ change : UInt16 → UInt16,
      (∀ insn ∈ (scan words).1, names'.Agrees names change insn) →
        parse names' options (renumber change words) =
          (parse names options words).mapError (·.relabel ⟨id, change⟩) := by
    intro change hagrees
    refine parse_relabel (parseHeader_renumber change options words) fun header _ => ?_
    have hbound : Declaration.Context.SameBound ⟨names', header.bound, options.checkIdBound⟩
        ⟨names, header.bound, options.checkIdBound⟩ := ⟨rfl, rfl⟩
    exact passFrom_of_follows hbound (follows_renumber change words) hagrees (empty header)
  refine ⟨hchanged, fun hagrees => ?_⟩
  have hsame := hchanged id hagrees
  rw [renumber_id] at hsame
  rw [hsame]
  cases parse names options words <;> simp [Except.mapError]

/-- A table with other numbers, and no `Op`, reads a renumbered stage and refuses a renumbered name
without a text. A table with only the mnemonics of the stage reads it as it is. -/
theorem parse_renumber_shifted :
    let stage : List Word := (Assembly.ofStatements
      [.capability 1, .name 4 "color", .decorate 4 30 [1], .typeFloat 2 32, .typeVector 3 2 4,
        .typePointer 5 1 3, .moduleVariable 5 4 1]).words
    let broken : List Word := (Assembly.ofStatements [.capability 1, .raw 5 [4]]).words
    let shifted : NameTable := .ofLists
      [(105, "Name"), (106, "Unused"), (122, "TypeFloat"), (123, "TypeVector"),
        (132, "TypePointer"), (159, "Variable"), (171, "Decorate")] [(30, "Location")]
    let small : NameTable := .ofLists
      [(5, "Name"), (22, "TypeFloat"), (23, "OpTypeVector"), (32, "TypePointer"),
        (59, "OpVariable"), (71, "Decorate"), (17, "Unused")] [(30, "Location")]
    let change : UInt16 → UInt16 := fun opcode => opcode + 100
    (∀ insn ∈ (scan stage).1, shifted.Agrees .core change insn) ∧
    (∀ insn ∈ (scan broken).1, shifted.Agrees .core change insn) ∧
    (∀ insn ∈ (scan stage).1, small.Agrees .core id insn) ∧
    (∃ m, m.decorationsOf 4 = [⟨30, some "Location", [1]⟩] ∧ parse .core {} stage = .ok m ∧
      parse shifted {} (renumber change stage) = .ok m ∧ parse small {} stage = .ok m) ∧
    parse .core {} broken = .error (.malformed 7 (some 5) (.missingOperand .name 1)) ∧
    parse shifted {} (renumber change broken) =
      .error (.malformed 7 (some 105) (.missingOperand .name 1)) := by
  intro stage broken shifted small change
  have hstage : ∀ insn ∈ (scan stage).1, shifted.Agrees .core change insn := by decide +kernel
  have hbroken : ∀ insn ∈ (scan broken).1, shifted.Agrees .core change insn := by decide +kernel
  have hsmall : ∀ insn ∈ (scan stage).1, small.Agrees .core id insn := by decide +kernel
  have hread : (parse .core {} stage).toOption.map (·.decorationsOf 4) =
      some [⟨30, some "Location", [1]⟩] := by
    decide +kernel
  have hrefused : (parse .core {} broken).map (fun _ => ()) =
      .error (.malformed 7 (some 5) (.missingOperand .name 1)) := by
    decide +kernel
  obtain ⟨m, hparsed, hdecorations⟩ := Option.map_eq_some_iff.mp hread
  have hparsed := eq_ok_of_toOption hparsed
  have hrefused := map_eq_error_iff.mp hrefused
  refine ⟨hstage, hbroken, hsmall, ⟨m, hdecorations, hparsed, ?_, ?_⟩, hrefused, ?_⟩
  · rw [(parse_renumber .core shifted {} stage).1 change hstage, hparsed]
    rfl
  · rw [(parse_renumber .core small {} stage).2 hsmall, hparsed]
  · rw [(parse_renumber .core shifted {} broken).1 change hbroken, hrefused]
    rfl

end ShaderModule

end ShaderReflection
