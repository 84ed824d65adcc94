import ShaderReflection.Assembly
import ShaderReflection.Proofs.Descriptor.PoolSizes
import ShaderReflection.Proofs.Faulting.Rendering
import ShaderReflection.Proofs.Layout.Success
import ShaderReflection.Proofs.Module.Refusal
import ShaderReflection.Proofs.VertexInput.Packing

/-!
No input makes an operation leave its range: neither while a module is read, whatever its words are,
nor for the questions that can be asked about a module that was read.
-/

namespace ShaderReflection

namespace Recognised

variable {i : Recognised} (names : NameTable)

theorem utf8ByteSize_literal_le (i : Recognised) (start : Nat) :
    (i.literal start).1.utf8ByteSize ≤ 4 * (4 * i.insn.operands.length) := by
  unfold literal
  cases hdecode : Literal.decode? i.insn.operands start with
  | none => exact Nat.zero_le _
  | some result => exact Literal.utf8ByteSize_le_of_decode hdecode

theorem memberNamed?_declaration {key : Ident × Word} {text : String}
    (hnamed : (i.declaration names).memberNamed? = some (key, text)) :
    text = (i.literal 2).1 := by
  obtain ⟨op, insn⟩ := i
  cases op <;> cases hnamed
  rfl

/-- A variable is declared by an instruction of at least four words. -/
theorem four_le_wordCount (hreadable : i.Readable)
    (hvariable : ((i.declaration names).moduleVariable?).isSome) : 4 ≤ i.insn.wordCount := by
  obtain ⟨op, insn⟩ := i
  cases op
  case moduleVariable => exact Nat.succ_le_succ hreadable.1
  all_goals cases hvariable

end Recognised

namespace ShaderModule

variable {names : NameTable} {options : ParseOptions} {words : List Word} {m : ShaderModule}

section Streams

theorem headerLength_le_of_parse (hparsed : parse names options words = .ok m) :
    headerLength ≤ words.length := by
  obtain ⟨header, -, hheader, -⟩ := parse_eq_ok_iff.mp hparsed
  by_cases hlong : options.maxWords < words.length
  · rw [parseHeader_long hlong] at hheader
    cases hheader
  · rw [parseHeader_eq hlong] at hheader
    obtain ⟨_, hread, -⟩ := bind_eq_ok_iff.mp hheader
    exact Header.headerLength_le_of_parse hread

theorem operands_lt (hparsed : parse names options words = .ok m) {i : Recognised}
    (hmem : i ∈ recognised names words) : i.insn.operands.length < 65535 := by
  obtain ⟨insn, hinsn, hrecognised⟩ := List.mem_filterMap.mp hmem
  obtain ⟨stop, htiling⟩ := scan_tiling (headerLength_le_of_parse hparsed)
  have hcount := htiling.wordCount_lt hinsn
  obtain ⟨op, -, rfl⟩ := Option.map_eq_some_iff.mp hrecognised
  exact Nat.lt_of_succ_lt_succ hcount

theorem shortNames_of_parse (hparsed : parse names options words = .ok m) : m.ShortNames := by
  intro id member name hname
  rw [(records_of_parse hparsed).memberName, lastUnder_eq_getLast?] at hname
  obtain ⟨⟨key, text⟩, hentry, rfl⟩ := List.mem_map.mp (List.mem_of_getLast? hname)
  obtain ⟨declaration, hdeclaration, hnamed⟩ :=
    List.mem_filterMap.mp (List.mem_of_mem_filter hentry)
  obtain ⟨i, hi, rfl⟩ := List.mem_map.mp hdeclaration
  have hoperands := operands_lt hparsed hi
  have hsize := i.utf8ByteSize_literal_le 2
  rw [Recognised.memberNamed?_declaration names hnamed]
  simp only [longestText]
  omega

theorem four_mul_variables_le {insns : List Instruction}
    (hreadable : ∀ i ∈ insns.filterMap (Recognised.ofInstruction? names), i.Readable) :
    4 * (((insns.filterMap (Recognised.ofInstruction? names)).map
        (·.declaration names)).filterMap Declaration.moduleVariable?).length ≤
      (insns.flatMap Instruction.words).length := by
  induction insns with
  | nil => exact Nat.le_refl _
  | cons insn rest ih =>
      rw [List.flatMap_cons, List.length_append, insn.length_words]
      cases hrecognised : Recognised.ofInstruction? names insn with
      | none =>
          rw [List.filterMap_cons_none hrecognised] at hreadable ⊢
          exact Nat.le_trans (ih hreadable) (Nat.le_add_left _ _)
      | some i =>
          rw [List.filterMap_cons_some hrecognised] at hreadable ⊢
          obtain ⟨hfirst, hrest⟩ := List.forall_mem_cons.mp hreadable
          have hrest := ih hrest
          obtain ⟨op, -, rfl⟩ := Option.map_eq_some_iff.mp hrecognised
          rw [List.map_cons, filterMap_cons_eq, List.length_append]
          cases hvariable : ((Recognised.mk op insn).declaration names).moduleVariable? with
          | none =>
              simp only [Option.toList_none, List.length_nil, Nat.zero_add]
              omega
          | some declared =>
              have hfour := Recognised.four_le_wordCount names hfirst (by rw [hvariable]; rfl)
              simp only [Option.toList_some, List.length_singleton] at hfour ⊢
              omega

/-- Every uniform variable has an instruction of its own. -/
theorem four_mul_uniformVariables_le (hparsed : parse names options words = .ok m) :
    headerLength + 4 * m.uniformVariables.size ≤ words.length := by
  have hrecords := records_of_parse hparsed
  have hheader := headerLength_le_of_parse hparsed
  obtain ⟨_, declared, -, hdeclared, -⟩ := parse_eq_ok_iff.mp hparsed
  obtain ⟨hending, haccepted⟩ := parseDeclarations_eq_ok_iff.mp hdeclared
  obtain ⟨hreadable, -⟩ := Declaration.filterMapM_ofInstruction haccepted
  have hfew : m.uniformVariables.size ≤ (((recognised names words).map
      (·.declaration names)).filterMap Declaration.moduleVariable?).length := by
    rw [← Array.length_toList, hrecords.uniformVariables, List.length_map]
    exact Nat.le_trans (List.length_filter_le _ _) (firsts_sublist _).length_le
  have hwords : 4 * (((recognised names words).map
      (·.declaration names)).filterMap Declaration.moduleVariable?).length ≤
      ((scan words).1.flatMap Instruction.words).length := four_mul_variables_le hreadable
  obtain ⟨stop, htiling⟩ := scan_tiling hheader
  have hstop := htiling.consecutive.stop_eq
  have hall := htiling.finished hending
  omega

theorem countP_le_uniformVariables (m : ShaderModule) (kind : DescriptorKind) :
    m.descriptors.countP (·.kind == kind) ≤ m.uniformVariables.size := by
  have hlength : m.descriptors.length = m.uniformVariables.size := by
    rw [descriptors, List.length_mergeSort, List.length_map, Array.length_toList]
  exact hlength ▸ List.countP_le_length

theorem count_le_uniformVariables {kind : DescriptorKind} {count : Word}
    (hcount : (Descriptor.poolSizes m.descriptors)[kind]? = some count) :
    count.toNat ≤ m.uniformVariables.size := by
  rw [Descriptor.toNat_of_getElem?_poolSizes hcount]
  exact Nat.le_trans (Nat.mod_le _ _) (m.countP_le_uniformVariables kind)

end Streams

/-- Whether no operation leaves its range in what can be asked about a module of so many words. -/
structure ViewsInRange (m : ShaderModule) (words : Nat) : Prop where
  layouts : ∀ id, Faulting.typeLayout m id = .total (m.typeLayout id) ∧
    Faulting.variableLayout m id = .total (m.variableLayout id)
  texts : ∀ id, Faulting.typeText m id = .total (.ok (m.typeText id))
  sizes : ∀ id layout, m.typeLayout id = .ok layout →
    m.HasLayout id layout ∧ m.HasSize id layout.size.toNat
  variableSizes : ∀ id layout, m.variableLayout id = .ok layout →
    ∃ pointee, m.pointee id = .ok pointee ∧ m.HasLayout pointee layout ∧
      m.HasSize pointee layout.size.toNat
  buffers : ∀ entry ∈ m.entryLayouts, ∀ request result,
    VertexInputLayout.build request entry = .ok result →
      VertexInputLayout.IsPacked request entry result
  counts : ∀ kind, m.descriptors.countP (·.kind == kind) ≤ m.uniformVariables.size
  counters : ∀ kind count, (Descriptor.poolSizes m.descriptors)[kind]? = some count →
    count.toNat ≤ m.uniformVariables.size ∧
      (words < 4 * UInt32.size → count.toNat = m.descriptors.countP (·.kind == kind))
  uniforms : headerLength + 4 * m.uniformVariables.size ≤ words

theorem viewsInRange_of_parse (hparsed : parse names options words = .ok m) :
    m.ViewsInRange words.length where
  layouts id := ⟨Faulting.typeLayout_eq (shortNames_of_parse hparsed) id,
    Faulting.variableLayout_eq (shortNames_of_parse hparsed) id⟩
  texts := Faulting.typeText_eq (shortNames_of_parse hparsed)
  sizes id layout h := by
    obtain ⟨hlayout, -⟩ := typeLayout_eq_ok_iff.mp h
    exact ⟨hlayout, hlayout.hasSize⟩
  variableSizes id layout h := by
    obtain ⟨pointee, hpointee, hlayout, -⟩ := variableLayout_eq_ok_iff.mp h
    exact ⟨pointee, hpointee, hlayout, hlayout.hasSize⟩
  buffers _ _ _ _ hbuild := VertexInputLayout.isPacked_of_build hbuild
  counts := m.countP_le_uniformVariables
  counters kind count hcount := by
    refine ⟨count_le_uniformVariables hcount, fun hfew => ?_⟩
    have hcounted := m.countP_le_uniformVariables kind
    have huniforms := four_mul_uniformVariables_le hparsed
    exact (Descriptor.count_exact_iff hcount).mpr (by omega)
  uniforms := four_mul_uniformVariables_le hparsed

/-- Whatever the words or bytes, reading by operations that may fault gives what reading gives, and
for every module that was read the questions stay in range as well. -/
theorem untrusted_input_never_faults (names : NameTable) (options : ParseOptions) :
    (∀ words, Faulting.parse names options words = .total (parse names options words) ∧
      ∀ m, parse names options words = .ok m → m.ViewsInRange words.length) ∧
    ∀ image, Faulting.parseImage names options image = .total (parseImage names options image) ∧
      ∀ m, parseImage names options image = .ok m → m.ViewsInRange (image.length / 4) := by
  constructor
  · intro words
    exact ⟨Faulting.parse_eq names options words, fun m => viewsInRange_of_parse⟩
  · intro image
    refine ⟨Faulting.parseImage_eq names options image, fun m hparsed => ?_⟩
    obtain ⟨words, hwords, hparsed⟩ := bind_eq_ok_iff.mp hparsed
    unfold wordsOfImage at hwords
    split_ifs at hwords with hwhole
    obtain rfl := Except.ok.inj hwords
    have hlength := Word.length_image (Word.ofImage image)
    rw [Word.image_ofImage image hwhole] at hlength
    rw [hlength, Nat.mul_div_cancel_left _ (by decide)]
    exact viewsInRange_of_parse hparsed

/-- A module with a named member and two uniform variables, its image with a byte missing, and a
stream that ends inside an entry point's name. -/
theorem untrusted_input_never_faults_cut_short :
    let words := (Assembly.ofStatements
      [.memberName 4 0 "tint", .typeFloat 2 32, .typeVector 3 2 4, .typeStruct 4 [3],
        .typePointer 5 2 4, .typeSampler 6, .typePointer 7 0 6, .moduleVariable 5 8 2,
        .moduleVariable 7 9 0]).words
    let image := (Word.image words).dropLast
    let unended := (Assembly.ofStatements [.raw 15 [0, 1, 0x6E69616D]]).words
    (∃ m, Faulting.parse .core {} words = .total (.ok m) ∧ m.uniformVariables.size = 2 ∧
      m.ViewsInRange words.length) ∧
    Faulting.parseImage .core {} image = .total (.error (.misalignedBytes image.length)) ∧
    Faulting.parse .core {} unended =
      .total (.error (.malformed 5 (some 15) (.unterminatedString .entryPoint))) := by
  intro words image unended
  have hsize : (parse .core {} words).toOption.map (·.uniformVariables.size) = some 2 := by
    decide +kernel
  have hunended : (parse .core {} unended).map (fun _ => ()) =
      .error (.malformed 5 (some 15) (.unterminatedString .entryPoint)) := by
    decide +kernel
  obtain ⟨m, hparsed, hsize⟩ := Option.map_eq_some_iff.mp hsize
  have hparsed := eq_ok_of_toOption hparsed
  obtain ⟨hwords, himage⟩ := untrusted_input_never_faults .core {}
  refine ⟨⟨m, ?_, hsize, (hwords words).2 m hparsed⟩, ?_, ?_⟩
  · rw [(hwords words).1, hparsed]
  · rw [(himage image).1, parseImage, wordsOfImage, if_neg (by decide +kernel)]
    rfl
  · rw [(hwords unended).1, map_eq_error_iff.mp hunended]

end ShaderModule

end ShaderReflection
