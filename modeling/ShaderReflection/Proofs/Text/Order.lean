import Mathlib.Data.String.Basic
import ShaderReflection.Proofs.Text.Utf8

/-!
The order of texts by code points is the order of their UTF-8 bytes: of two characters, the one with
the greater code point has the greater byte where their encodings first differ.
-/

namespace ShaderReflection.Utf8

/-- Whether the UTF-8 bytes of a text come before those of another text. -/
def Before (text other : String) : Prop := text.toUTF8.toList < other.toUTF8.toList

section Bytes

variable {m n : Nat} {first second : List UInt8}

theorem cons_lt_of_lt (hn : n < 256) (hlt : m < n) :
    UInt8.ofNat m :: first < UInt8.ofNat n :: second := by
  refine List.cons_lt_cons_iff.mpr (Or.inl ?_)
  rw [UInt8.lt_iff_toNat_lt, toNat_byte (Nat.lt_trans hlt hn), toNat_byte hn]
  exact hlt

theorem cons_lt_of_le (hn : n < 256) (hle : m ≤ n) (htail : m = n → first < second) :
    UInt8.ofNat m :: first < UInt8.ofNat n :: second := by
  rcases Nat.lt_or_eq_of_le hle with hlt | rfl
  · exact cons_lt_of_lt hn hlt
  · exact List.cons_lt_cons_iff.mpr (Or.inr ⟨rfl, htail rfl⟩)

end Bytes

/-- A lower character has the lower byte where the two encodings first differ, whatever follows. -/
theorem utf8EncodeChar_append_lt {c d : Char} (h : c < d) (rest rest' : List UInt8) :
    String.utf8EncodeChar c ++ rest < String.utf8EncodeChar d ++ rest' := by
  have hlt : c.val.toNat < d.val.toNat := h
  have hlast : d.val.toNat < 1114112 := by
    have hvalid : d.val.toNat < 55296 ∨ 57343 < d.val.toNat ∧ d.val.toNat < 1114112 := d.valid
    omega
  unfold String.utf8EncodeChar
  generalize c.val.toNat = v at hlt
  generalize d.val.toNat = w at hlt hlast
  dsimp only
  split_ifs <;> simp only [List.cons_append, List.nil_append]
  -- The lower code point does not need more bytes, and fewer bytes begin with a lower one.
  any_goals omega
  · exact cons_lt_of_lt (by omega) (by omega)
  · exact cons_lt_of_lt (by omega) (by omega)
  · exact cons_lt_of_lt (by omega) (by omega)
  · exact cons_lt_of_lt (by omega) (by omega)
  · refine cons_lt_of_le (by omega) (by omega) fun hfirst => ?_
    exact cons_lt_of_lt (by omega) (by omega)
  · exact cons_lt_of_lt (by omega) (by omega)
  · exact cons_lt_of_lt (by omega) (by omega)
  · refine cons_lt_of_le (by omega) (by omega) fun hfirst => ?_
    refine cons_lt_of_le (by omega) (by omega) fun hsecond => ?_
    exact cons_lt_of_lt (by omega) (by omega)
  · exact cons_lt_of_lt (by omega) (by omega)
  · refine cons_lt_of_le (by omega) (by omega) fun hfirst => ?_
    refine cons_lt_of_le (by omega) (by omega) fun hsecond => ?_
    refine cons_lt_of_le (by omega) (by omega) fun hthird => ?_
    exact cons_lt_of_lt (by omega) (by omega)

theorem flatMap_utf8EncodeChar_lt {first second : List Char} (h : first < second) :
    first.flatMap String.utf8EncodeChar < second.flatMap String.utf8EncodeChar := by
  induction first generalizing second with
  | nil =>
      cases second with
      | nil => exact absurd h (List.lt_irrefl [])
      | cons d second =>
          rw [List.flatMap_nil, List.flatMap_cons]
          cases hbytes : String.utf8EncodeChar d with
          | nil => exact absurd hbytes String.utf8EncodeChar_ne_nil
          | cons byte bytes => exact List.nil_lt_cons _ _
  | cons c first ih =>
      cases second with
      | nil => exact absurd h (List.not_lt_nil _)
      | cons d second =>
          rw [List.flatMap_cons, List.flatMap_cons]
          rcases List.cons_lt_cons_iff.mp h with hlt | ⟨rfl, hrest⟩
          · exact utf8EncodeChar_append_lt hlt _ _
          · exact List.append_left_lt (ih hrest)

theorem before_iff_lt {text other : String} : Before text other ↔ text < other := by
  have hbytes : ∀ {text other : String}, text < other → Before text other := by
    intro text other hlt
    rw [Before, toUTF8_toList, toUTF8_toList]
    exact flatMap_utf8EncodeChar_lt (String.lt_iff.mp hlt)
  refine ⟨fun hbefore => ?_, hbytes⟩
  rcases lt_trichotomy text other with hlt | rfl | hgt
  · exact hlt
  · exact absurd hbefore (List.lt_irrefl _)
  · exact absurd (hbytes hgt) (List.lt_asymm hbefore)

end ShaderReflection.Utf8
