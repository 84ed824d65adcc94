import Mathlib.Data.List.ProdSigma
import ShaderReflection.NameTable.Grammar
import ShaderReflection.Proofs.Fallible
import ShaderReflection.Proofs.Table
import ShaderReflection.Proofs.Text.Order

/-!
Which grammars become name tables, what the tables then answer, and which error is reported
otherwise. Definitions count in the order of the grammar, and the mnemonics within one in the order
of their bytes. Only the definitions of the two enumerations that a table needs have a say.
-/

namespace ShaderReflection.Grammar

/-- Whether a grammar defines an enumeration. -/
def Defines (enums : List EnumDef) (name : String) : Prop :=
  ∃ definition ∈ enums, definition.name = name

/-- Whether a definition is one of the enumeration `name` and gives a mnemonic a value. -/
def Gives (definition : EnumDef) (name mnemonic : String) (value : UInt64) : Prop :=
  definition.name = name ∧ definition.values[mnemonic]? = some value

/-- Whether a definition gives a mnemonic a value that needs more than the `width` bits of the
numbers it names. -/
def TooWide (definition : EnumDef) (mnemonic : String) (value : UInt64) (width : Nat) : Prop :=
  (Gives definition opcodeEnum mnemonic value ∧ width = 16 ∨
    Gives definition decorationEnum mnemonic value ∧ width = 32) ∧ Nat.pow 2 width ≤ value.toNat

/-- Whether no value is too wide. -/
def InRange (enums : List EnumDef) : Prop :=
  ∀ definition ∈ enums, ∀ mnemonic value width, ¬ TooWide definition mnemonic value width

/-- Whether a value that is too wide is the first one, in the order of the definitions and then in
that of the mnemonics. -/
def FirstTooWide (enums : List EnumDef) (enum mnemonic : String) (value : UInt64) (width : Nat) :
    Prop :=
  ∃ before definition after, enums = before ++ definition :: after ∧ InRange before ∧
    definition.name = enum ∧ TooWide definition mnemonic value width ∧
    ∀ other value width, TooWide definition other value width →
      other = mnemonic ∨ Utf8.Before mnemonic other

/-- Whether an error is the one to report about a grammar. -/
def Reports (enums : List EnumDef) : GrammarError → Prop
  | .valueOutOfRange enum mnemonic value width => FirstTooWide enums enum mnemonic value width
  | .missingEnum name =>
      InRange enums ∧ (name = opcodeEnum ∧ ¬ Defines enums opcodeEnum ∨
        name = decorationEnum ∧ Defines enums opcodeEnum ∧ ¬ Defines enums decorationEnum)
  | .notGrammar => False

/-- Whether a mnemonic is the first with a value in the definitions of an enumeration, in the order
of the definitions and then in that of the mnemonics. -/
def FirstWith (enums : List EnumDef) (name : String) (value : UInt64) (mnemonic : String) : Prop :=
  ∃ before definition after, enums = before ++ definition :: after ∧
    Gives definition name mnemonic value ∧
    (∀ other, Gives definition name other value → other = mnemonic ∨ Utf8.Before mnemonic other) ∧
    ∀ earlier ∈ before, ∀ other, ¬ Gives earlier name other value

/-- Whether a value is the one that the last definition of an enumeration with a mnemonic gives
it. -/
def LastOf (enums : List EnumDef) (name mnemonic : String) (value : UInt64) : Prop :=
  ∃ before definition after, enums = before ++ definition :: after ∧
    Gives definition name mnemonic value ∧
    ∀ later ∈ after, ∀ other, ¬ Gives later name mnemonic other

/-- Whether a name table answers what a grammar says. -/
structure Resolves (enums : List EnumDef) (table : NameTable) : Prop where
  opcodeName : ∀ opcode mnemonic, table.opcodeName opcode = some mnemonic ↔
    FirstWith enums opcodeEnum opcode.toUInt64 mnemonic
  opcodeValue : ∀ mnemonic opcode, table.opcodeValue mnemonic = some opcode ↔
    LastOf enums opcodeEnum mnemonic opcode.toUInt64
  decorationName : ∀ decoration mnemonic, table.decorationName decoration = some mnemonic ↔
    FirstWith enums decorationEnum decoration.toUInt64 mnemonic
  decorationValue : ∀ mnemonic decoration, table.decorationValue mnemonic = some decoration ↔
    LastOf enums decorationEnum mnemonic decoration.toUInt64

/-- An item is the first with a property in a list in ascending order exactly if it is lower than
all others with the property. -/
theorem first_iff {α : Type} {lower : α → α → Prop} (hasymm : ∀ a b, lower a b → ¬ lower b a)
    {items : List α} (hsorted : items.Pairwise lower) {p : α → Prop} {item : α} :
    (∃ before after, items = before ++ item :: after ∧ ∀ earlier ∈ before, ¬ p earlier) ↔
      item ∈ items ∧ ∀ other ∈ items, p other → other = item ∨ lower item other := by
  constructor
  · rintro ⟨before, after, rfl, hbefore⟩
    refine ⟨List.mem_append_right _ List.mem_cons_self, fun other hother hp => ?_⟩
    rcases List.mem_append.mp hother with hearlier | hother
    · exact absurd hp (hbefore other hearlier)
    · rcases List.mem_cons.mp hother with rfl | hlater
      · exact Or.inl rfl
      · exact Or.inr ((List.pairwise_cons.mp (List.pairwise_append.mp hsorted).2.1).1 other hlater)
  · rintro ⟨hitem, hlowest⟩
    obtain ⟨before, after, rfl⟩ := List.append_of_mem hitem
    refine ⟨before, after, rfl, fun earlier hearlier hp => ?_⟩
    have hlower := (List.pairwise_append.mp hsorted).2.2 earlier hearlier item List.mem_cons_self
    rcases hlowest earlier (List.mem_append_left _ hearlier) hp with rfl | hhigher
    · exact hasymm _ _ hlower hlower
    · exact hasymm _ _ hlower hhigher

section Definitions

variable {definition : EnumDef} {name mnemonic : String} {value : UInt64}

/-- The entries of a definition, if it is one of the enumeration `name`. -/
def listed (name : String) (definition : EnumDef) : List (String × UInt64) :=
  if definition.name == name then definition.values.toList else []

theorem listed_of_name (hname : definition.name = name) :
    listed name definition = definition.values.toList := by
  rw [listed, if_pos (beq_iff_eq.mpr hname)]

theorem entries_eq (enums : List EnumDef) (name : String) :
    entries enums name = enums.flatMap (listed name) := by
  induction enums with
  | nil => rfl
  | cons definition rest ih =>
      rw [List.flatMap_cons, ← ih, entries, List.filter_cons, listed]
      split_ifs <;> rfl

theorem mem_listed_iff {entry : String × UInt64} :
    entry ∈ listed name definition ↔ Gives definition name entry.1 entry.2 := by
  by_cases hname : definition.name = name
  · rw [listed_of_name hname, Gives, and_iff_right hname]
    exact Std.ExtTreeMap.mem_toList_iff_getElem?_eq_some
  · rw [listed, if_neg (by simpa using hname)]
    exact ⟨fun hentry => absurd hentry List.not_mem_nil, fun hgives => absurd hgives.1 hname⟩

/-- The mnemonics of a definition are visited in the order of their bytes. -/
theorem pairwise_listed (name : String) (definition : EnumDef) :
    (listed name definition).Pairwise fun entry later => Utf8.Before entry.1 later.1 := by
  unfold listed
  split_ifs
  · refine Std.ExtTreeMap.ordered_keys_toList.imp fun {entry later} hlower => ?_
    exact Utf8.before_iff_lt.mpr (compareOfLessAndEq_eq_lt.mp hlower)
  · exact .nil

/-- An entry is the first of a definition with a property exactly if its mnemonic is before all
others that have the property. -/
theorem first_listed_iff {p : String × UInt64 → Prop} :
    (∃ before after, listed name definition = before ++ (mnemonic, value) :: after ∧
        ∀ earlier ∈ before, ¬ p earlier) ↔
      Gives definition name mnemonic value ∧
        ∀ other value, Gives definition name other value → p (other, value) →
          other = mnemonic ∨ Utf8.Before mnemonic other := by
  rw [first_iff (fun _ _ => List.lt_asymm) (pairwise_listed name definition), mem_listed_iff]
  refine and_congr_right fun hentry => ?_
  constructor
  · intro h other value hgives hp
    rcases h (other, value) (mem_listed_iff.mpr hgives) hp with heq | hbefore
    · exact Or.inl (congrArg Prod.fst heq)
    · exact Or.inr hbefore
  · rintro h ⟨other, otherValue⟩ hother hp
    rw [mem_listed_iff] at hother
    rcases h other otherValue hother hp with rfl | hbefore
    · refine Or.inl (Prod.ext rfl ?_)
      exact Option.some.inj (hother.2.symm.trans hentry.2)
    · exact Or.inr hbefore

end Definitions

section Lookups

variable {enums : List EnumDef} {name mnemonic : String} {value : UInt64}

theorem getElem?_mnemonics (listing : List (String × UInt64)) (value : UInt64) :
    (mnemonics listing)[value]? = firstUnder value (listing.map Prod.swap) := by
  have hstep : ∀ (table : Std.ExtTreeMap UInt64 String) (entry : String × UInt64) (key : UInt64),
      (table.insertIfNew entry.2 entry.1)[key]? =
        (table[key]?).or (firstUnder key (some entry.swap).toList) := by
    intro table entry key
    obtain ⟨mnemonic, number⟩ := entry
    rw [getElem?_insertIfNew_entry, Option.toList_some, Prod.swap_prod_mk, firstUnder_singleton]
  have hfold := foldl_firstUnder _ (fun entry => some (Prod.swap entry)) _ hstep ∅ listing value
  have hmap : listing.filterMap (fun entry => some (Prod.swap entry)) = listing.map Prod.swap :=
    congrFun List.filterMap_eq_map listing
  rw [hmap] at hfold
  exact hfold.trans (by rw [Std.ExtTreeMap.getElem?_empty, Option.none_or])

theorem getElem?_values (listing : List (String × UInt64)) (mnemonic : String) :
    (values listing)[mnemonic]? = lastUnder mnemonic listing := by
  have hstep : ∀ (table : Std.ExtTreeMap String UInt64) (entry : String × UInt64) (key : String),
      (table.insert entry.1 entry.2)[key]? =
        (lastUnder key (some entry).toList).or (table[key]?) := by
    intro table entry key
    rw [getElem?_insert_entry, Option.toList_some, lastUnder_singleton]
    split_ifs <;> rfl
  have hfold := foldl_lastUnder _ some _ hstep ∅ listing mnemonic
  rw [List.filterMap_some] at hfold
  exact hfold.trans (by rw [Std.ExtTreeMap.getElem?_empty, Option.or_none])

theorem lookup_swap_listed_iff {definition : EnumDef} :
    ((listed name definition).map Prod.swap).lookup value = some mnemonic ↔
      Gives definition name mnemonic value ∧
        ∀ other, Gives definition name other value →
          other = mnemonic ∨ Utf8.Before mnemonic other := by
  have hfind : ((listed name definition).map Prod.swap).lookup value = some mnemonic ↔
      ∃ before after, listed name definition = before ++ (mnemonic, value) :: after ∧
        ∀ earlier ∈ before, ¬ earlier.2 = value := by
    rw [lookup_eq_find?, List.find?_map, Option.map_map, Option.map_eq_some_iff]
    simp only [List.find?_eq_some_iff_append]
    constructor
    · rintro ⟨⟨other, otherValue⟩, ⟨hvalue, before, after, hsplit, hbefore⟩, rfl⟩
      obtain rfl : otherValue = value := by simpa using hvalue
      exact ⟨before, after, hsplit, fun earlier hearlier => by simpa using hbefore earlier hearlier⟩
    · rintro ⟨before, after, hsplit, hbefore⟩
      refine ⟨(mnemonic, value), ⟨by simp, before, after, hsplit, ?_⟩, rfl⟩
      exact fun earlier hearlier => by simpa using hbefore earlier hearlier
  rw [hfind, first_listed_iff]
  refine and_congr_right fun _ => ⟨fun h other hgives => h other value hgives rfl, ?_⟩
  rintro h other _ hgives rfl
  exact h other hgives

theorem lookup_swap_listed_eq_none_iff {definition : EnumDef} :
    ((listed name definition).map Prod.swap).lookup value = none ↔
      ∀ other, ¬ Gives definition name other value := by
  simp only [lookup_eq_none_iff_notMem, List.mem_map_swap, mem_listed_iff]

/-- The first mnemonic of a value is found in the first definition that has one. -/
theorem getElem?_mnemonics_entries :
    (mnemonics (entries enums name))[value]? = some mnemonic ↔
      FirstWith enums name value mnemonic := by
  rw [getElem?_mnemonics, entries_eq, List.map_flatMap, firstUnder, lookup_flatMap,
    List.findSome?_eq_some_iff]
  simp only [lookup_swap_listed_iff, lookup_swap_listed_eq_none_iff, FirstWith, and_assoc]

theorem lookup_reverse_listed_eq_none_iff {definition : EnumDef} :
    (listed name definition).reverse.lookup mnemonic = none ↔
      ∀ other, ¬ Gives definition name mnemonic other := by
  simp only [lookup_eq_none_iff_notMem, List.mem_reverse, mem_listed_iff]

/-- A definition gives a mnemonic no more than one value. -/
theorem lookup_reverse_listed_iff {definition : EnumDef} :
    (listed name definition).reverse.lookup mnemonic = some value ↔
      Gives definition name mnemonic value := by
  have hfound : ∀ {value}, (listed name definition).reverse.lookup mnemonic = some value →
      Gives definition name mnemonic value := by
    intro value hlookup
    obtain ⟨before, after, hlisted, -⟩ := List.lookup_eq_some_iff.mp hlookup
    have hentry : (mnemonic, value) ∈ (listed name definition).reverse := by
      rw [hlisted]
      exact List.mem_append_right _ List.mem_cons_self
    exact mem_listed_iff.mp (List.mem_reverse.mp hentry)
  refine ⟨hfound, fun hgives => ?_⟩
  cases hlookup : (listed name definition).reverse.lookup mnemonic with
  | none => exact absurd hgives (lookup_reverse_listed_eq_none_iff.mp hlookup value)
  | some other =>
      have hother := (hfound hlookup).2
      rw [hgives.2] at hother
      exact hother.symm

/-- The value of a mnemonic is found in the last definition that has it. -/
theorem getElem?_values_entries :
    (values (entries enums name))[mnemonic]? = some value ↔ LastOf enums name mnemonic value := by
  rw [getElem?_values, entries_eq, lastUnder, List.reverse_flatMap, lookup_flatMap,
    List.findSome?_eq_some_iff]
  simp only [Function.comp_apply, lookup_reverse_listed_iff, lookup_reverse_listed_eq_none_iff]
  constructor
  · rintro ⟨after, definition, before, hsplit, hgives, hafter⟩
    refine ⟨before.reverse, definition, after.reverse, ?_, hgives, ?_⟩
    · rw [← List.reverse_inj, hsplit]
      simp
    · intro later hlater
      exact hafter later (List.mem_reverse.mp hlater)
  · rintro ⟨before, definition, after, rfl, hgives, hafter⟩
    refine ⟨after.reverse, definition, before.reverse, by simp, hgives, ?_⟩
    intro later hlater
    exact hafter later (List.mem_reverse.mp hlater)

end Lookups

section Checks

variable {enums : List EnumDef} {definition : EnumDef} {name : String} {error : GrammarError}

theorem width?_eq_some_iff {width : Nat} :
    width? name = some width ↔
      name = opcodeEnum ∧ width = 16 ∨ name = decorationEnum ∧ width = 32 := by
  unfold width?
  split_ifs with hopcode hdecoration
  · subst hopcode
    simp [opcodeEnum, decorationEnum, eq_comm]
  · subst hdecoration
    simp [opcodeEnum, decorationEnum, eq_comm]
  · simp [hopcode, hdecoration]

theorem tooWide_iff {mnemonic : String} {value : UInt64} {width : Nat} :
    TooWide definition mnemonic value width ↔
      width? definition.name = some width ∧ Gives definition definition.name mnemonic value ∧
        Nat.pow 2 width ≤ value.toNat := by
  rw [width?_eq_some_iff]
  simp only [TooWide, Gives]
  tauto

theorem checkRange_eq_ok_iff :
    checkRange definition = .ok () ↔
      ∀ mnemonic value width, ¬ TooWide definition mnemonic value width := by
  simp only [tooWide_iff]
  unfold checkRange
  cases hwidth : width? definition.name with
  | none => simp
  | some width =>
      simp only [forM_eq_ok_iff]
      rw [← listed_of_name rfl]
      constructor
      · rintro h mnemonic value _ ⟨⟨⟩, hgives, hwide⟩
        have hok := h (mnemonic, value) (mem_listed_iff.mpr hgives)
        rw [if_neg (Nat.not_lt.mpr hwide)] at hok
        cases hok
      · rintro h ⟨mnemonic, value⟩ hentry
        refine if_pos (Nat.lt_of_not_le fun hwide => ?_)
        exact h mnemonic value width ⟨rfl, mem_listed_iff.mp hentry, hwide⟩

/-- A definition is refused for the first of its mnemonics whose value is too wide. -/
theorem checkRange_eq_error_iff :
    checkRange definition = .error error ↔
      ∃ mnemonic value width,
        error = .valueOutOfRange definition.name mnemonic value width ∧
        TooWide definition mnemonic value width ∧
        ∀ other value width, TooWide definition other value width →
          other = mnemonic ∨ Utf8.Before mnemonic other := by
  simp only [tooWide_iff]
  unfold checkRange
  cases hwidth : width? definition.name with
  | none => simp
  | some width =>
      simp only [forM_eq_error_iff, FailsFirst]
      rw [← listed_of_name rfl]
      constructor
      · rintro ⟨before, ⟨mnemonic, value⟩, after, hsplit, hbefore, herror⟩
        dsimp only at herror
        split_ifs at herror with hfits
        obtain rfl := Except.error.inj herror
        have hfirst : Gives definition definition.name mnemonic value ∧
            ∀ other value, Gives definition definition.name other value →
              Nat.pow 2 width ≤ value.toNat → other = mnemonic ∨ Utf8.Before mnemonic other := by
          refine (first_listed_iff (p := fun entry => Nat.pow 2 width ≤ entry.2.toNat)).mp
            ⟨before, after, hsplit, fun earlier hearlier hwide => ?_⟩
          obtain ⟨_, hok⟩ := hbefore earlier hearlier
          rw [if_neg (Nat.not_lt.mpr hwide)] at hok
          cases hok
        refine ⟨mnemonic, value, width, rfl, ⟨rfl, hfirst.1, Nat.not_lt.mp hfits⟩, ?_⟩
        rintro other otherValue _ ⟨⟨⟩, hgives, hwide⟩
        exact hfirst.2 other otherValue hgives hwide
      · rintro ⟨mnemonic, value, _, rfl, ⟨⟨⟩, hgives, hwide⟩, hfirst⟩
        obtain ⟨before, after, hsplit, hbefore⟩ :=
          (first_listed_iff (p := fun entry => Nat.pow 2 width ≤ entry.2.toNat)).mpr
            ⟨hgives, fun other value hother hwide => hfirst other value width ⟨rfl, hother, hwide⟩⟩
        refine ⟨before, (mnemonic, value), after, hsplit, fun earlier hearlier => ?_, ?_⟩
        · exact ⟨(), if_pos (Nat.lt_of_not_le (hbefore earlier hearlier))⟩
        · exact if_neg (Nat.not_lt.mpr hwide)

theorem checkRanges_eq_ok_iff : enums.forM checkRange = .ok () ↔ InRange enums := by
  simp only [forM_eq_ok_iff, checkRange_eq_ok_iff, InRange]

theorem checkRanges_eq_error_iff :
    enums.forM checkRange = .error error ↔
      ∃ enum mnemonic value width, error = .valueOutOfRange enum mnemonic value width ∧
        FirstTooWide enums enum mnemonic value width := by
  rw [forM_eq_error_iff]
  constructor
  · rintro ⟨before, definition, after, rfl, hbefore, herror⟩
    obtain ⟨mnemonic, value, width, rfl, hwide, hfirst⟩ := checkRange_eq_error_iff.mp herror
    refine ⟨definition.name, mnemonic, value, width, rfl, before, definition, after, rfl, ?_, rfl,
      hwide, hfirst⟩
    intro earlier hearlier
    obtain ⟨_, hok⟩ := hbefore earlier hearlier
    exact checkRange_eq_ok_iff.mp hok
  · rintro ⟨_, mnemonic, value, width, rfl, before, definition, after, rfl, hbefore, rfl, hwide,
      hfirst⟩
    refine ⟨before, definition, after, rfl, fun earlier hearlier => ⟨(), ?_⟩, ?_⟩
    · exact checkRange_eq_ok_iff.mpr (hbefore earlier hearlier)
    · exact checkRange_eq_error_iff.mpr ⟨mnemonic, value, width, rfl, hwide, hfirst⟩

theorem any_name_iff : enums.any (·.name == name) = true ↔ Defines enums name := by
  simp [Defines]

theorem checkPresent_eq_ok_iff : checkPresent enums name = .ok () ↔ Defines enums name := by
  rw [← any_name_iff, checkPresent]
  split_ifs with h <;> simp [h]

theorem checkPresent_eq_error_iff :
    checkPresent enums name = .error error ↔ error = .missingEnum name ∧ ¬ Defines enums name := by
  rw [← any_name_iff, checkPresent]
  split_ifs with h <;> simp [h, eq_comm]

end Checks

/-- The name table of a grammar that is not refused. -/
def resolved (enums : List EnumDef) : NameTable where
  opcodeName opcode := (mnemonics (entries enums opcodeEnum))[opcode.toUInt64]?
  decorationName decoration := (mnemonics (entries enums decorationEnum))[decoration.toUInt64]?
  opcodeValue mnemonic := (values (entries enums opcodeEnum))[mnemonic]?.map (·.toUInt16)
  decorationValue mnemonic := (values (entries enums decorationEnum))[mnemonic]?.map (·.toUInt32)

section Outcomes

variable {enums : List EnumDef} {table : NameTable} {error : GrammarError}

theorem nameTable_eq (enums : List EnumDef) :
    nameTable enums = (enums.forM checkRange >>= fun _ => checkPresent enums opcodeEnum >>= fun _ =>
      checkPresent enums decorationEnum >>= fun _ => pure (resolved enums)) := rfl

theorem nameTable_eq_ok_iff :
    nameTable enums = .ok table ↔
      (Defines enums opcodeEnum ∧ Defines enums decorationEnum ∧ InRange enums) ∧
        table = resolved enums := by
  rw [nameTable_eq, check_bind_eq_ok_iff, check_bind_eq_ok_iff, check_bind_eq_ok_iff,
    checkRanges_eq_ok_iff, checkPresent_eq_ok_iff, checkPresent_eq_ok_iff]
  simp only [pure, Except.pure, Except.ok.injEq]
  tauto

theorem nameTable_eq_error_iff : nameTable enums = .error error ↔ Reports enums error := by
  rw [nameTable_eq, check_bind_eq_error_iff, check_bind_eq_error_iff, check_bind_eq_error_iff,
    checkRanges_eq_error_iff, checkRanges_eq_ok_iff, checkPresent_eq_ok_iff,
    checkPresent_eq_ok_iff, checkPresent_eq_error_iff, checkPresent_eq_error_iff]
  cases error with
  | notGrammar => simp [Reports, pure, Except.pure]
  | missingEnum name =>
      simp only [Reports, pure, Except.pure, reduceCtorEq, GrammarError.missingEnum.injEq, false_and,
        exists_false, and_false, or_false, false_or]
      tauto
  | valueOutOfRange enum mnemonic value width => simp [Reports, pure, Except.pure]

end Outcomes

section Resolution

variable {enums : List EnumDef} {name mnemonic : String} {value : UInt64}

theorem toNat_lt_of_lastOf {width : Nat} (hrange : InRange enums) (hwidth : width? name = some width)
    (hlast : LastOf enums name mnemonic value) : value.toNat < Nat.pow 2 width := by
  obtain ⟨before, definition, after, rfl, ⟨rfl, hvalue⟩, -⟩ := hlast
  refine Nat.lt_of_not_le fun hwide => ?_
  exact hrange definition (List.mem_append_right _ List.mem_cons_self) mnemonic value width
    (tooWide_iff.mpr ⟨hwidth, ⟨rfl, hvalue⟩, hwide⟩)

theorem toUInt16_eq_iff {opcode : UInt16} (hvalue : value.toNat < Nat.pow 2 16) :
    value.toUInt16 = opcode ↔ value = opcode.toUInt64 := by
  rw [← UInt16.toNat_inj, ← UInt64.toNat_inj, UInt64.toNat_toUInt16, UInt16.toNat_toUInt64,
    Nat.mod_eq_of_lt hvalue]

theorem toUInt32_eq_iff {decoration : UInt32} (hvalue : value.toNat < Nat.pow 2 32) :
    value.toUInt32 = decoration ↔ value = decoration.toUInt64 := by
  rw [← UInt32.toNat_inj, ← UInt64.toNat_inj, UInt64.toNat_toUInt32, UInt32.toNat_toUInt64,
    Nat.mod_eq_of_lt hvalue]

/-- A value in range is not changed when it is cut to the width of the numbers it names. -/
theorem map_values_entries_iff {κ : Type} {narrow : UInt64 → κ} {widen : κ → UInt64} {number : κ}
    (hcut : ∀ value, LastOf enums name mnemonic value →
      (narrow value = number ↔ value = widen number)) :
    (values (entries enums name))[mnemonic]?.map narrow = some number ↔
      LastOf enums name mnemonic (widen number) := by
  simp only [Option.map_eq_some_iff, getElem?_values_entries]
  constructor
  · rintro ⟨value, hlast, hvalue⟩
    exact (hcut value hlast).mp hvalue ▸ hlast
  · intro hlast
    exact ⟨widen number, hlast, (hcut _ hlast).mpr rfl⟩

theorem resolves_resolved (hrange : InRange enums) : Resolves enums (resolved enums) where
  opcodeName _ _ := getElem?_mnemonics_entries
  opcodeValue _ _ := map_values_entries_iff fun _ hlast =>
    toUInt16_eq_iff (toNat_lt_of_lastOf hrange rfl hlast)
  decorationName _ _ := getElem?_mnemonics_entries
  decorationValue _ _ := map_values_entries_iff fun _ hlast =>
    toUInt32_eq_iff (toNat_lt_of_lastOf hrange rfl hlast)

theorem resolves_of_nameTable {table : NameTable} (h : nameTable enums = .ok table) :
    Resolves enums table := by
  obtain ⟨⟨-, -, hrange⟩, rfl⟩ := nameTable_eq_ok_iff.mp h
  exact resolves_resolved hrange

end Resolution

/-- The definitions of the two enumerations that a name table needs. -/
def needed (enums : List EnumDef) : List EnumDef :=
  enums.filter fun definition => definition.name == opcodeEnum || definition.name == decorationEnum

section Irrelevance

variable (enums : List EnumDef)

theorem forM_checkRange_needed : (needed enums).forM checkRange = enums.forM checkRange := by
  induction enums with
  | nil => rfl
  | cons definition rest ih =>
      change _ = (checkRange definition >>= fun _ => rest.forM checkRange)
      rw [needed, List.filter_cons, ← needed, ← ih]
      split_ifs with hneeded
      · rfl
      · -- A definition with another name has no width, so its values are not checked.
        have hwidth : width? definition.name = none := by
          rw [Bool.or_eq_true, beq_iff_eq, beq_iff_eq, not_or] at hneeded
          rw [width?, if_neg hneeded.1, if_neg hneeded.2]
        rw [checkRange, hwidth, ok_bind]

/-- Whoever looks for one of the two enumerations does not see the other definitions. -/
theorem needed_and_named {name : String} (hname : name = opcodeEnum ∨ name = decorationEnum)
    (definition : EnumDef) :
    ((definition.name == opcodeEnum || definition.name == decorationEnum) &&
      definition.name == name) = (definition.name == name) := by
  rcases hname with rfl | rfl <;> cases definition.name == _ <;> simp

theorem entries_needed {name : String} (hname : name = opcodeEnum ∨ name = decorationEnum) :
    entries (needed enums) name = entries enums name := by
  rw [entries, needed, List.filter_filter, entries]
  simp only [Bool.and_comm (_ == name), needed_and_named hname]

theorem checkPresent_needed {name : String} (hname : name = opcodeEnum ∨ name = decorationEnum) :
    checkPresent (needed enums) name = checkPresent enums name := by
  rw [checkPresent, needed, List.any_filter, checkPresent]
  simp only [needed_and_named hname]

theorem nameTable_needed : nameTable (needed enums) = nameTable enums := by
  have hopcodes : opcodeEnum = opcodeEnum ∨ opcodeEnum = decorationEnum := Or.inl rfl
  have hdecorations : decorationEnum = opcodeEnum ∨ decorationEnum = decorationEnum := Or.inr rfl
  have hresolved : resolved (needed enums) = resolved enums := by
    simp only [resolved, entries_needed enums hopcodes, entries_needed enums hdecorations]
  rw [nameTable_eq, nameTable_eq, hresolved, forM_checkRange_needed,
    checkPresent_needed enums hopcodes, checkPresent_needed enums hdecorations]

end Irrelevance

/-- A grammar is accepted exactly if it defines both enumerations and all their values are in range.
What it is refused for otherwise, and what its table answers, depends on the order of the
definitions and of the mnemonics only, and on no definition of another enumeration. -/
theorem nameTable_resolution (enums : List EnumDef) :
    ((∃ table, nameTable enums = .ok table) ↔
      Defines enums opcodeEnum ∧ Defines enums decorationEnum ∧ InRange enums) ∧
    (∀ error, nameTable enums = .error error ↔ Reports enums error) ∧
    (∀ table, nameTable enums = .ok table → Resolves enums table) ∧
    nameTable (needed enums) = nameTable enums := by
  refine ⟨?_, fun _ => nameTable_eq_error_iff, fun _ => resolves_of_nameTable,
    nameTable_needed enums⟩
  simp only [nameTable_eq_ok_iff, exists_and_left, exists_eq, and_true]

/-- A grammar with an enumeration that no table needs, and with two opcodes of one value. -/
def aliased : List EnumDef :=
  [⟨"SourceLanguage", Std.ExtTreeMap.empty.insert "GLSL" 0xFFFFFFFFFF⟩,
    ⟨"Decoration", Std.ExtTreeMap.empty.insert "Location" 30⟩,
    ⟨"Op", (Std.ExtTreeMap.empty.insert "OpDecorateStringGOOGLE" 5632).insert
      "OpDecorateString" 5632⟩]

theorem nameTable_resolution_of_aliased :
    ∃ table, nameTable aliased = .ok table ∧ Resolves aliased table ∧
      table.opcodeName 5632 = some "OpDecorateString" ∧
      table.opcodeValue "OpDecorateStringGOOGLE" = some 5632 := by
  have hdefines : Defines aliased opcodeEnum ∧ Defines aliased decorationEnum := by
    simp [Defines, aliased, opcodeEnum, decorationEnum]
  have hrange : InRange aliased := checkRanges_eq_ok_iff.mp (by decide +kernel)
  obtain ⟨haccepted, -, hresolves, -⟩ := nameTable_resolution aliased
  obtain ⟨table, htable⟩ := haccepted.mpr ⟨hdefines.1, hdefines.2, hrange⟩
  obtain ⟨-, rfl⟩ := nameTable_eq_ok_iff.mp htable
  exact ⟨_, htable, hresolves _ htable, by decide +kernel, by decide +kernel⟩

end ShaderReflection.Grammar
