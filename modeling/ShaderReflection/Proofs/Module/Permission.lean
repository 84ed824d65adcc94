import ShaderReflection.Proofs.Module.Invariant

/-!
What options decide. They permit a module or refuse it for its length, its bound or its ids, and
have no say in what is read: a stream that is permitted is read as the same module under all
options.
-/

namespace ShaderReflection

namespace Recognised

/-- The ids that are checked against the bound: the one that an instruction defines or targets, and
the interface ids of an entry point. -/
def checkedIds (i : Recognised) : List Ident := i.target :: i.interface

theorem read_eq_ok_iff {context : Declaration.Context} {i : Recognised}
    {declared : Declaration} :
    i.read context = .ok declared ↔
      i.Readable ∧ (∀ id ∈ i.checkedIds, ¬ context.Outside id) ∧
        declared = i.declaration context.names := by
  constructor
  · intro hread
    obtain ⟨hreadable, hdeclared⟩ := readable_of_read hread
    exact ⟨hreadable, allowed_of_read hread, hdeclared⟩
  · rintro ⟨⟨hcount, hliteral⟩, hallowed, rfl⟩
    obtain ⟨htarget, hinterface⟩ := List.forall_mem_cons.mp hallowed
    refine read_of_checks hcount htarget ?_ hinterface
    intro start hstart
    exact Literal.decode?_isSome_iff.mp (hliteral start hstart)

end Recognised

namespace Declaration

variable {context : Context} {insns : List Instruction}

theorem ofInstruction_succeeds_iff_readable {insn : Instruction} :
    (∃ declared, ofInstruction context insn = .ok declared) ↔
      ∀ i, Recognised.ofInstruction? context.names insn = some i →
        i.Readable ∧ ∀ id ∈ i.checkedIds, ¬ context.Outside id := by
  rw [ofInstruction_eq]
  cases hrecognised : Recognised.ofInstruction? context.names insn with
  | none => simp
  | some i =>
      simp only [Option.some.injEq, forall_eq']
      constructor
      · rintro ⟨declared, hdeclared⟩
        cases hread : i.read context with
        | error error =>
            rw [hread] at hdeclared
            cases hdeclared
        | ok first =>
            obtain ⟨hreadable, hallowed, -⟩ := Recognised.read_eq_ok_iff.mp hread
            exact ⟨hreadable, hallowed⟩
      · rintro ⟨hreadable, hallowed⟩
        have hread := Recognised.read_eq_ok_iff.mpr ⟨hreadable, hallowed, rfl⟩
        rw [hread]
        exact ⟨_, rfl⟩

/-- Some instructions are accepted exactly if the recognised ones are readable and stay within the
bound, and then they declare what their operands say. -/
theorem filterMapM_ofInstruction_eq_ok_iff {declared : List Declaration} :
    insns.filterMapM (ofInstruction context) = .ok declared ↔
      (∀ i ∈ insns.filterMap (Recognised.ofInstruction? context.names),
        i.Readable ∧ ∀ id ∈ i.checkedIds, ¬ context.Outside id) ∧
      declared = (insns.filterMap (Recognised.ofInstruction? context.names)).map
        (·.declaration context.names) := by
  have hsucceeds : (∃ declared, insns.filterMapM (ofInstruction context) = .ok declared) ↔
      ∀ i ∈ insns.filterMap (Recognised.ofInstruction? context.names),
        i.Readable ∧ ∀ id ∈ i.checkedIds, ¬ context.Outside id := by
    simp only [filterMapM_succeeds_iff, ofInstruction_succeeds_iff_readable,
      List.forall_mem_filterMap]
  constructor
  · intro h
    exact ⟨hsucceeds.mp ⟨declared, h⟩, (filterMapM_ofInstruction h).2⟩
  · rintro ⟨hrecognised, rfl⟩
    obtain ⟨declared, h⟩ := hsucceeds.mpr hrecognised
    rw [h, (filterMapM_ofInstruction h).2]

end Declaration

/-- Whether options permit a stream whose header has the given bound: it is not too long, the bound
is not too large, and, if ids are checked, all of them are below it. -/
structure ParseOptions.Permits (options : ParseOptions) (names : NameTable) (words : List Word)
    (bound : Word) : Prop where
  length : words.length ≤ options.maxWords
  idBound : bound ≤ options.maxIdBound
  ids : options.checkIdBound = true →
    ∀ i ∈ recognised names words, ∀ id ∈ i.checkedIds, id < bound

theorem ParseOptions.Permits.of_le {options strict : ParseOptions} {names : NameTable}
    {words : List Word} {bound : Word} (h : strict.Permits names words bound)
    (hwords : strict.maxWords ≤ options.maxWords) (hbound : strict.maxIdBound ≤ options.maxIdBound)
    (hcheck : options.checkIdBound = true → strict.checkIdBound = true) :
    options.Permits names words bound where
  length := h.length.trans hwords
  idBound := UInt32.le_trans h.idBound hbound
  ids hchecked := h.ids (hcheck hchecked)

namespace ShaderModule

/-- Whether a stream holds a module, whatever options may ask of its length and its ids. -/
structure HeldBy (m : ShaderModule) (names : NameTable) (words : List Word) : Prop where
  header : Header.parse words = .ok m.header
  whole : (scan words).2 = none
  readable : ∀ i ∈ recognised names words, i.Readable
  contents : m = ofDeclarations m.header ((recognised names words).map (·.declaration names))

variable {names : NameTable} {options strict : ParseOptions} {words : List Word}
  {m : ShaderModule}

theorem header_declare (m : ShaderModule) (declaration : Declaration) :
    (m.declare declaration).header = m.header := by
  cases declaration with
  | moduleVariable declared => rw [declare, declareVariable_eq]
  | _ => rfl

theorem header_ofDeclarations (header : Header) (declared : List Declaration) :
    (ofDeclarations header declared).header = header := by
  have hkept : ∀ m : ShaderModule, (declared.foldl declare m).header = m.header := by
    induction declared with
    | nil => exact fun _ => rfl
    | cons declaration rest ih =>
        intro m
        rw [List.foldl_cons, ih, header_declare]
  exact hkept (empty header)

theorem parseHeader_eq_ok_iff {header : Header} :
    parseHeader options words = .ok header ↔
      Header.parse words = .ok header ∧ words.length ≤ options.maxWords ∧
        header.bound ≤ options.maxIdBound := by
  by_cases hlong : options.maxWords < words.length
  · rw [parseHeader_long hlong]
    simp [Nat.not_le.mpr hlong]
  · rw [parseHeader_eq hlong, bind_eq_ok_iff]
    have hbound : ∀ read : Header,
        (if options.maxIdBound < read.bound then
          Except.error (ParseError.idBoundTooLarge read.bound options.maxIdBound)
        else .ok read) = .ok header ↔ read = header ∧ header.bound ≤ options.maxIdBound := by
      intro read
      split_ifs with hover
      · simp only [false_iff, not_and, UInt32.not_le]
        rintro rfl
        exact hover
      · constructor
        · intro h
          obtain rfl := Except.ok.inj h
          exact ⟨rfl, UInt32.not_lt.mp hover⟩
        · rintro ⟨rfl, -⟩
          rfl
    simp only [hbound]
    constructor
    · rintro ⟨_, hread, rfl, hwithin⟩
      exact ⟨hread, Nat.le_of_not_lt hlong, hwithin⟩
    · rintro ⟨hread, -, hwithin⟩
      exact ⟨header, hread, rfl, hwithin⟩

/-- A module is read from the stream that holds it if the options permit the stream, and else no
module is. -/
theorem parse_eq_ok_iff_permits :
    parse names options words = .ok m ↔
      m.HeldBy names words ∧ options.Permits names words m.header.bound := by
  rw [parse_eq_ok_iff]
  simp only [parseHeader_eq_ok_iff, parseDeclarations_eq_ok_iff,
    Declaration.filterMapM_ofInstruction_eq_ok_iff, Declaration.Context.Outside, not_and,
    UInt32.not_le]
  constructor
  · rintro ⟨header, _, ⟨hheader, hlength, hbound⟩, ⟨hwhole, hrecognised, rfl⟩, rfl⟩
    refine ⟨⟨?_, hwhole, fun i hi => (hrecognised i hi).1, ?_⟩, hlength, ?_, ?_⟩
    · rw [header_ofDeclarations, hheader]
    · rw [header_ofDeclarations]
      rfl
    · rwa [header_ofDeclarations]
    · intro hchecked i hi id hid
      rw [header_ofDeclarations]
      exact (hrecognised i hi).2 id hid hchecked
  · rintro ⟨⟨hheader, hwhole, hreadable, hcontents⟩, hlength, hbound, hids⟩
    exact ⟨m.header, _, ⟨hheader, hlength, hbound⟩,
      ⟨hwhole, fun i hi => ⟨hreadable i hi, fun id hid hchecked => hids hchecked i hi id hid⟩, rfl⟩,
      hcontents⟩

/-- Options only restrict. What is read under some is read, as the same module, under any that ask
for less. What is read under these is read under the others too, exactly if its length and its bound
are within their limits and, if they check ids, all ids that are defined, targeted or listed by a
recognised instruction are below the bound. -/
theorem parse_restricted (names : NameTable) (words : List Word) (options strict : ParseOptions)
    (hwords : strict.maxWords ≤ options.maxWords)
    (hbound : strict.maxIdBound ≤ options.maxIdBound)
    (hcheck : options.checkIdBound = true → strict.checkIdBound = true) (m : ShaderModule) :
    (parse names strict words = .ok m → parse names options words = .ok m) ∧
      (parse names options words = .ok m →
        (parse names strict words = .ok m ↔
          words.length ≤ strict.maxWords ∧ m.header.bound ≤ strict.maxIdBound ∧
          (strict.checkIdBound = false ∨
            ∀ i ∈ recognised names words, ∀ id ∈ i.checkedIds, id < m.header.bound))) := by
  simp only [parse_eq_ok_iff_permits]
  constructor
  · rintro ⟨hheld, hpermits⟩
    exact ⟨hheld, hpermits.of_le hwords hbound hcheck⟩
  · rintro ⟨hheld, -⟩
    constructor
    · rintro ⟨-, hlength, hbound, hids⟩
      refine ⟨hlength, hbound, ?_⟩
      cases hchecked : strict.checkIdBound with
      | false => exact .inl rfl
      | true => exact .inr (hids hchecked)
    · rintro ⟨hlength, hbound, hids⟩
      refine ⟨hheld, hlength, hbound, fun hchecked => ?_⟩
      rcases hids with hunchecked | hids
      · rw [hunchecked] at hchecked
        cases hchecked
      · exact hids

/-- An entry point lists an id at the bound. Without a check of ids it is read, under a limit on the
words that it meets exactly, and with one it is not. -/
theorem parse_restricted_listed_id :
    let words := (Assembly.ofStatements
      [.bound 9, .entryPoint 0 1 "main" [9], .typeFloat 2 32, .typePointer 3 1 2,
        .moduleVariable 3 8 1]).words
    let options : ParseOptions := ⟨16, words.length, false⟩
    let strict : ParseOptions := ⟨9, words.length, true⟩
    strict.maxIdBound ≤ options.maxIdBound ∧
    ∃ m, parse .core options words = .ok m ∧ m.header.bound = 9 ∧
      parse .core strict words ≠ .ok m ∧
      parse .core { strict with checkIdBound := false } words = .ok m := by
  intro words options strict
  have hok : (parse .core options words).isOk = true := by decide +kernel
  have hbound : (parse .core options words).toOption.map (·.header.bound) = some 9 := by
    decide +kernel
  have hlisted : ∃ i ∈ recognised .core words, ∃ id ∈ i.checkedIds, 9 ≤ id := by decide +kernel
  have hwithin : strict.maxIdBound ≤ options.maxIdBound := by decide
  obtain ⟨m, hparsed⟩ := exists_of_isOk hok
  rw [hparsed] at hbound
  have hbound : m.header.bound = 9 := Option.some.inj hbound
  have hchecked := (parse_restricted .core words options strict (Nat.le_refl _) hwithin
    (fun _ => rfl) m).2 hparsed
  have hunchecked := (parse_restricted .core words options { strict with checkIdBound := false }
    (Nat.le_refl _) hwithin (fun h => h) m).2 hparsed
  refine ⟨hwithin, m, hparsed, hbound, ?_, ?_⟩
  · intro hread
    obtain ⟨-, -, hids | hids⟩ := hchecked.mp hread
    · cases hids
    · obtain ⟨i, hi, id, hid, hover⟩ := hlisted
      exact UInt32.not_le.mpr (hbound ▸ hids i hi id hid) hover
  · exact hunchecked.mpr ⟨Nat.le_refl _, hbound ▸ UInt32.le_refl _, .inl rfl⟩

end ShaderModule

end ShaderReflection
