import Mathlib.Data.String.Basic
import ShaderReflection.Text.Numeral

/-!
Decimal numerals of words. Reading accepts a plus sign and leading zeros that writing never makes;
what is written is read as the same word, and takes at most ten bytes.
-/

namespace ShaderReflection.Numeral

/-- Whether a text is a decimal numeral for a word: one or more ASCII digits for its value, after a
plus sign or not. -/
def Denotes (text : List Char) (word : Word) : Prop :=
  ∃ digits, (text = digits ∨ text = '+' :: digits) ∧ digits ≠ [] ∧
    (∀ digit ∈ digits, digit.isDigit = true) ∧ Nat.ofDigitChars 10 digits 0 = word.toNat

theorem Denotes.ne_nil {text : List Char} {word : Word} (h : Denotes text word) : text ≠ [] := by
  obtain ⟨digits, rfl | rfl, hdigits, -⟩ := h
  · exact hdigits
  · exact List.cons_ne_nil _ _

theorem natural?_eq_some_iff {digits : List Char} {value : Nat} :
    natural? digits = some value ↔
      digits ≠ [] ∧ (∀ digit ∈ digits, digit.isDigit = true) ∧
        Nat.ofDigitChars 10 digits 0 = value := by
  have hvalue : digits.foldl (fun value digit => value * 10 + (digit.toNat - '0'.toNat)) 0 =
      Nat.ofDigitChars 10 digits 0 := by
    simp only [Nat.ofDigitChars_eq_foldl, Nat.mul_comm]
  unfold natural?
  rw [hvalue]
  by_cases hempty : digits = []
  · simp [hempty]
  · simp [hempty]

/-- A sign is no digit, so at most one of the two readings of a numeral is possible. -/
theorem not_isDigit_plus {rest : List Char} :
    ¬ ∀ digit ∈ '+' :: rest, digit.isDigit = true := by
  intro hdigits
  exact absurd (hdigits '+' List.mem_cons_self) (by decide)

/-- A run of digits is read as a word if its value fits one. -/
theorem word_of_natural?_eq_some_iff {digits : List Char} {word : Word} :
    (match natural? digits with
      | some value => if value < UInt32.size then some (UInt32.ofNat value) else none
      | none => none) = some word ↔
    digits ≠ [] ∧ (∀ digit ∈ digits, digit.isDigit = true) ∧
      Nat.ofDigitChars 10 digits 0 = word.toNat := by
  have hfits : ∀ value : Nat,
      (if value < UInt32.size then some (UInt32.ofNat value) else none) = some word ↔
        value = word.toNat := by
    intro value
    constructor
    · intro h
      split at h
      · next hsmall =>
        obtain rfl := Option.some.inj h
        exact (UInt32.toNat_ofNat_of_lt' hsmall).symm
      · cases h
    · rintro rfl
      rw [if_pos word.toNat_lt_size, UInt32.ofNat_toNat]
  rw [← natural?_eq_some_iff]
  cases natural? digits with
  | none => simp
  | some value => simp [hfits]

theorem word?_eq_some_iff {text : List Char} {word : Word} :
    word? text = some word ↔ Denotes text word := by
  unfold word?
  split
  · next rest =>
    refine word_of_natural?_eq_some_iff.trans ⟨fun h => ⟨rest, Or.inr rfl, h⟩, ?_⟩
    rintro ⟨digits, rfl | hdigits, h⟩
    · exact absurd h.2.1 not_isDigit_plus
    · obtain rfl := (List.cons.inj hdigits).2
      exact h
  · next hplain =>
    refine word_of_natural?_eq_some_iff.trans ⟨fun h => ⟨text, Or.inl rfl, h⟩, ?_⟩
    rintro ⟨digits, rfl | hdigits, h⟩
    · exact h
    · exact (hplain digits hdigits).elim

section Writing

variable (word : Word)

theorem toList_toString : (toString word).toList = Nat.toDigits 10 word.toNat :=
  Nat.toList_repr

theorem isDigit_of_mem_toString {digit : Char} (h : digit ∈ (toString word).toList) :
    digit.isDigit = true := by
  rw [toList_toString] at h
  exact Nat.isDigit_of_mem_toDigits (by decide) (by decide) h

/-- A word that is written in decimal is read back. -/
theorem denotes_toString : Denotes (toString word).toList word := by
  refine ⟨_, Or.inl rfl, ?_, fun digit => isDigit_of_mem_toString word, ?_⟩
  · rw [toList_toString]
    exact Nat.toDigits_ne_nil
  · rw [toList_toString]
    exact Nat.ofDigitChars_toDigits (by decide) (by decide)

/-- Decimal digits take a byte each. -/
theorem utf8Len_of_isDigit {digits : List Char} (h : ∀ digit ∈ digits, digit.isDigit = true) :
    String.utf8Len digits = digits.length := by
  induction digits with
  | nil => rfl
  | cons digit rest ih =>
      rw [List.forall_mem_cons] at h
      have hsize : digit.utf8Size = 1 := by
        have hdigit : digit.val ≤ 57 := (Char.isDigit_iff_toNat.mp h.1).2
        exact Char.utf8Size_eq_one_iff.mpr (UInt32.le_trans hdigit (by decide))
      rw [String.utf8Len_cons, ih h.2, hsize, List.length_cons, Nat.add_comm]

theorem utf8ByteSize_toString_le : (toString word).utf8ByteSize ≤ 10 := by
  have hlength : (Nat.toDigits 10 word.toNat).length ≤ 10 :=
    (Nat.length_toDigits_le_iff (by decide) (by decide)).mpr
      (Nat.lt_trans word.toNat_lt (by decide))
  rw [← String.ofList_toList (s := toString word), String.utf8ByteSize_ofList,
    utf8Len_of_isDigit fun digit => isDigit_of_mem_toString word, toList_toString]
  exact hlength

end Writing

end ShaderReflection.Numeral
