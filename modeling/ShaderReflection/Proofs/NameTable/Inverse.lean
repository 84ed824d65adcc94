import ShaderReflection.Proofs.NameTable.Loading

/-!
How far the two directions of a name table undo each other. A number keeps its first mnemonic, and
a mnemonic takes its last value, so what comes back from a number and its mnemonic is that number
unless the mnemonic has got another value since.
-/

namespace ShaderReflection.Grammar

/-- Whether each number comes back from its mnemonic, and each number of a mnemonic has a mnemonic
that it comes back from. -/
def MutuallyInverse {κ : Type} (mnemonicOf : κ → Option String) (valueOf : String → Option κ) :
    Prop :=
  (∀ number mnemonic, mnemonicOf number = some mnemonic → valueOf mnemonic = some number) ∧
    ∀ mnemonic number, valueOf mnemonic = some number →
      ∃ first, mnemonicOf number = some first ∧ valueOf first = some number

/-- Whether the last definition with a mnemonic gives it another value than `value`. -/
def Overruled (enums : List EnumDef) (name mnemonic : String) (value : UInt64) : Prop :=
  ∃ other, LastOf enums name mnemonic other ∧ other ≠ value

/-- Whether no two definitions of an enumeration give a mnemonic different values. -/
def Consistent (enums : List EnumDef) (name : String) : Prop :=
  ∀ definition ∈ enums, ∀ other ∈ enums, ∀ mnemonic value otherValue,
    Gives definition name mnemonic value → Gives other name mnemonic otherValue →
      value = otherValue

/-- Whether the two directions of a table for an enumeration undo each other wherever the grammar
does not overrule one of its own values. -/
structure InverseUnlessOverruled {κ : Type} (enums : List EnumDef) (name : String)
    (widen : κ → UInt64) (mnemonicOf : κ → Option String) (valueOf : String → Option κ) :
    Prop where
  valueOf_mnemonicOf : ∀ number mnemonic, mnemonicOf number = some mnemonic →
    (∃ last, valueOf mnemonic = some last) ∧
      (valueOf mnemonic = some number ↔ ¬ Overruled enums name mnemonic (widen number))
  mnemonicOf_valueOf : ∀ mnemonic number, valueOf mnemonic = some number →
    ∃ first, mnemonicOf number = some first ∧
      (valueOf first = some number ↔ ¬ Overruled enums name first (widen number))
  mutuallyInverse : Consistent enums name → MutuallyInverse mnemonicOf valueOf

section Definitions

variable {enums : List EnumDef} {name mnemonic : String} {value : UInt64}

theorem mem_entries_iff :
    (mnemonic, value) ∈ entries enums name ↔
      ∃ definition ∈ enums, Gives definition name mnemonic value := by
  rw [entries_eq, List.mem_flatMap]
  simp only [mem_listed_iff]

theorem FirstWith.mem (h : FirstWith enums name value mnemonic) :
    ∃ definition ∈ enums, Gives definition name mnemonic value := by
  obtain ⟨before, definition, after, rfl, hgives, -⟩ := h
  exact ⟨definition, List.mem_append_right _ List.mem_cons_self, hgives⟩

theorem LastOf.mem (h : LastOf enums name mnemonic value) :
    ∃ definition ∈ enums, Gives definition name mnemonic value := by
  obtain ⟨before, definition, after, rfl, hgives, -⟩ := h
  exact ⟨definition, List.mem_append_right _ List.mem_cons_self, hgives⟩

theorem LastOf.unique {other : UInt64} (h : LastOf enums name mnemonic value)
    (hother : LastOf enums name mnemonic other) : value = other := by
  rw [← getElem?_values_entries] at h hother
  exact Option.some.inj (h.symm.trans hother)

/-- A value that some definition gives has a first mnemonic. -/
theorem exists_firstWith (h : ∃ definition ∈ enums, Gives definition name mnemonic value) :
    ∃ first, FirstWith enums name value first := by
  simp only [← getElem?_mnemonics_entries, getElem?_mnemonics, ← Option.isSome_iff_exists]
  by_contra hnone
  rw [Option.not_isSome_iff_eq_none, firstUnder, lookup_eq_none_iff_notMem] at hnone
  exact hnone mnemonic ((List.mem_map_swap _ _ _).mpr (mem_entries_iff.mpr h))

/-- A mnemonic that some definition gives a value has a last value. -/
theorem exists_lastOf (h : ∃ definition ∈ enums, Gives definition name mnemonic value) :
    ∃ last, LastOf enums name mnemonic last := by
  simp only [← getElem?_values_entries, getElem?_values, ← Option.isSome_iff_exists]
  by_contra hnone
  rw [Option.not_isSome_iff_eq_none, lastUnder, lookup_eq_none_iff_notMem] at hnone
  exact hnone value (List.mem_reverse.mpr (mem_entries_iff.mpr h))

theorem lastOf_iff_not_overruled
    (h : ∃ definition ∈ enums, Gives definition name mnemonic value) :
    LastOf enums name mnemonic value ↔ ¬ Overruled enums name mnemonic value := by
  constructor
  · rintro hlast ⟨other, hother, hne⟩
    exact hne (hother.unique hlast)
  · intro hkept
    obtain ⟨last, hlast⟩ := exists_lastOf h
    by_cases hvalue : last = value
    · exact hvalue ▸ hlast
    · exact absurd ⟨last, hlast, hvalue⟩ hkept

/-- Where the definitions agree with each other, nothing is overruled. -/
theorem Consistent.not_overruled (hconsistent : Consistent enums name)
    (h : ∃ definition ∈ enums, Gives definition name mnemonic value) :
    ¬ Overruled enums name mnemonic value := by
  rintro ⟨other, hlast, hne⟩
  obtain ⟨definition, hmem, hgives⟩ := h
  obtain ⟨last, hlastMem, hlastGives⟩ := hlast.mem
  exact hne (hconsistent last hlastMem definition hmem mnemonic other value hlastGives hgives)

end Definitions

section Sides

variable {κ : Type} {enums : List EnumDef} {name : String} {widen : κ → UInt64}
  {mnemonicOf : κ → Option String} {valueOf : String → Option κ}

/-- One argument serves opcodes and decorations: the numbers of a table only have to cover the last
values of the grammar. -/
theorem inverseUnlessOverruled
    (hmnemonicOf : ∀ number mnemonic, mnemonicOf number = some mnemonic ↔
      FirstWith enums name (widen number) mnemonic)
    (hvalueOf : ∀ mnemonic number, valueOf mnemonic = some number ↔
      LastOf enums name mnemonic (widen number))
    (hcovers : ∀ mnemonic value, LastOf enums name mnemonic value → ∃ number, value = widen number) :
    InverseUnlessOverruled enums name widen mnemonicOf valueOf := by
  have hgiven : ∀ number mnemonic, mnemonicOf number = some mnemonic →
      ∃ definition ∈ enums, Gives definition name mnemonic (widen number) :=
    fun number mnemonic h => ((hmnemonicOf number mnemonic).mp h).mem
  have hnamed : ∀ mnemonic number, valueOf mnemonic = some number →
      ∃ first, mnemonicOf number = some first := by
    intro mnemonic number h
    obtain ⟨first, hfirst⟩ := exists_firstWith ((hvalueOf mnemonic number).mp h).mem
    exact ⟨first, (hmnemonicOf number first).mpr hfirst⟩
  have hreturns : ∀ number mnemonic, mnemonicOf number = some mnemonic →
      (valueOf mnemonic = some number ↔ ¬ Overruled enums name mnemonic (widen number)) := by
    intro number mnemonic h
    rw [hvalueOf, lastOf_iff_not_overruled (hgiven number mnemonic h)]
  refine ⟨fun number mnemonic h => ⟨?_, hreturns number mnemonic h⟩, ?_, ?_⟩
  · obtain ⟨last, hlast⟩ := exists_lastOf (hgiven number mnemonic h)
    obtain ⟨lastNumber, rfl⟩ := hcovers mnemonic last hlast
    exact ⟨lastNumber, (hvalueOf mnemonic lastNumber).mpr hlast⟩
  · intro mnemonic number h
    obtain ⟨first, hfirst⟩ := hnamed mnemonic number h
    exact ⟨first, hfirst, hreturns number first hfirst⟩
  · intro hconsistent
    have hback : ∀ number mnemonic, mnemonicOf number = some mnemonic →
        valueOf mnemonic = some number := by
      intro number mnemonic h
      exact (hreturns number mnemonic h).mpr (hconsistent.not_overruled (hgiven number mnemonic h))
    refine ⟨hback, fun mnemonic number h => ?_⟩
    obtain ⟨first, hfirst⟩ := hnamed mnemonic number h
    exact ⟨first, hfirst, hback number first hfirst⟩

end Sides

/-- In every table out of a grammar, a number with a mnemonic comes back from it unless the last
definition with that mnemonic gives it another value, and a number that a mnemonic has always has a
mnemonic of its own. -/
theorem nameTable_inverse {enums : List EnumDef} {table : NameTable}
    (h : nameTable enums = .ok table) :
    InverseUnlessOverruled enums opcodeEnum (·.toUInt64) table.opcodeName table.opcodeValue ∧
      InverseUnlessOverruled enums decorationEnum (·.toUInt64) table.decorationName
        table.decorationValue := by
  have hresolves := resolves_of_nameTable h
  have hrange := (nameTable_eq_ok_iff.mp h).1.2.2
  constructor
  · refine inverseUnlessOverruled hresolves.opcodeName hresolves.opcodeValue ?_
    intro mnemonic value hlast
    exact ⟨value.toUInt16, (toUInt16_eq_iff (toNat_lt_of_lastOf hrange rfl hlast)).mp rfl⟩
  · refine inverseUnlessOverruled hresolves.decorationName hresolves.decorationValue ?_
    intro mnemonic value hlast
    exact ⟨value.toUInt32, (toUInt32_eq_iff (toNat_lt_of_lastOf hrange rfl hlast)).mp rfl⟩

/-- A grammar that gives `OpA` one value and later another one. -/
def redefined : List EnumDef :=
  [⟨"Op", (Std.ExtTreeMap.empty.insert "OpA" 1).insert "OpB" 1⟩,
    ⟨"Decoration", Std.ExtTreeMap.empty.insert "Flat" 14⟩,
    ⟨"Op", Std.ExtTreeMap.empty.insert "OpA" 2⟩]

theorem nameTable_redefined : nameTable redefined = .ok (resolved redefined) := by
  refine nameTable_eq_ok_iff.mpr ⟨⟨?_, ?_, checkRanges_eq_ok_iff.mp (by decide +kernel)⟩, rfl⟩
  · exact checkPresent_eq_ok_iff.mp (by decide +kernel)
  · exact checkPresent_eq_ok_iff.mp (by decide +kernel)

/-- Neither the number of `OpA` nor that of `OpB` comes back from its mnemonic. -/
theorem not_mutuallyInverse_redefined :
    ∃ table, nameTable redefined = .ok table ∧
      table.opcodeName 1 = some "OpA" ∧ table.opcodeValue "OpA" = some 2 ∧
      table.opcodeValue "OpB" = some 1 ∧
      ¬ MutuallyInverse table.opcodeName table.opcodeValue := by
  have hname : (resolved redefined).opcodeName 1 = some "OpA" := by decide +kernel
  have hvalue : (resolved redefined).opcodeValue "OpA" = some 2 := by decide +kernel
  refine ⟨_, nameTable_redefined, hname, hvalue, by decide +kernel, ?_⟩
  rintro ⟨hback, -⟩
  have hone := hback 1 "OpA" hname
  rw [hvalue] at hone
  exact absurd hone (by decide)

theorem nameTable_inverse_redefined :
    ∃ table, nameTable redefined = .ok table ∧
      Overruled redefined opcodeEnum "OpA" (1 : UInt16).toUInt64 ∧
      MutuallyInverse table.decorationName table.decorationValue := by
  obtain ⟨hopcodes, hdecorations⟩ := nameTable_inverse nameTable_redefined
  refine ⟨_, nameTable_redefined, ?_, hdecorations.mutuallyInverse ?_⟩
  · by_contra hkept
    have hone := (hopcodes.valueOf_mnemonicOf 1 "OpA" (by decide +kernel)).2.mpr hkept
    exact absurd hone (by decide +kernel)
  · -- Only one definition of the grammar is one of the decorations.
    intro definition hmem other hotherMem mnemonic value otherValue hgives hother
    have hdecoration : ∀ definition ∈ redefined, definition.name = decorationEnum →
        definition = ⟨"Decoration", Std.ExtTreeMap.empty.insert "Flat" 14⟩ := by
      simp [redefined, decorationEnum]
    rw [hdecoration definition hmem hgives.1] at hgives
    rw [hdecoration other hotherMem hother.1] at hother
    exact Option.some.inj (hgives.2.symm.trans hother.2)

end ShaderReflection.Grammar
