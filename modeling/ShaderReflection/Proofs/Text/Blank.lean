import Mathlib.Data.List.DropRight
import ShaderReflection.Text.Blank

/-!
What is left of a text without the blanks at its two ends. There is one way only to split a text
into blanks, a part without blanks at its ends, and blanks, or the text is all blank.
-/

namespace ShaderReflection.Blank

/-- Whether `inner` is a text without the blanks at its two ends. -/
def Trimmed (text inner : List Char) : Prop :=
  ∃ front back, text = front ++ (inner ++ back) ∧
    (∀ c ∈ front, isBlank c = true) ∧ (∀ c ∈ back, isBlank c = true) ∧
    (∀ c ∈ inner.head?, ¬ isBlank c = true) ∧ (∀ c ∈ inner.getLast?, ¬ isBlank c = true)

variable {text inner front : List Char}

theorem trim_eq_rdropWhile : trim text = (text.dropWhile isBlank).rdropWhile isBlank := rfl

theorem trim_of_blank (h : ∀ c ∈ text, isBlank c = true) : trim text = [] := by
  rw [trim_eq_rdropWhile, List.dropWhile_eq_nil_iff.mpr h, List.rdropWhile_nil]

theorem dropWhile_append (hfront : ∀ c ∈ front, isBlank c = true)
    (hhead : ∀ c ∈ text.head?, ¬ isBlank c = true) : (front ++ text).dropWhile isBlank = text := by
  rw [List.dropWhile_append_of_pos hfront]
  cases text with
  | nil => rfl
  | cons c rest => exact List.dropWhile_cons_of_neg (hhead c rfl)

theorem not_isBlank_of_head?_dropWhile {c : Char} (h : c ∈ (text.dropWhile isBlank).head?) :
    ¬ isBlank c = true := by
  have hhead := List.head?_dropWhile_not isBlank text
  rw [Option.mem_def.mp h] at hhead
  rw [Bool.not_eq_true]
  exact hhead

theorem Trimmed.trim_eq (h : Trimmed text inner) : trim text = inner := by
  obtain ⟨front, back, rfl, hfront, hback, hhead, hlast⟩ := h
  by_cases hinner : inner = []
  · subst hinner
    refine trim_of_blank fun c hc => ?_
    rcases List.mem_append.mp hc with hc | hc
    · exact hfront c hc
    · exact hback c hc
  · have hhead' : ∀ c ∈ (inner ++ back).head?, ¬ isBlank c = true := by
      rwa [List.head?_append_of_ne_nil _ hinner]
    have hlast' : ∀ c ∈ inner.reverse.head?, ¬ isBlank c = true := by
      rwa [List.head?_reverse]
    have hback' : ∀ c ∈ back.reverse, isBlank c = true := by
      simpa only [List.mem_reverse] using hback
    rw [trim, dropWhile_append hfront hhead', List.reverse_append, dropWhile_append hback' hlast',
      List.reverse_reverse]

theorem trimmed_trim : Trimmed text (trim text) := by
  refine ⟨text.takeWhile isBlank, (text.dropWhile isBlank).rtakeWhile isBlank, ?_,
    fun _ => List.mem_takeWhile_imp, fun _ => List.mem_rtakeWhile_imp, ?_, ?_⟩
  · rw [trim_eq_rdropWhile, List.rdropWhile_append_rtakeWhile, List.takeWhile_append_dropWhile]
  · intro c hc
    obtain ⟨back, hback⟩ : trim text <+: text.dropWhile isBlank := List.rdropWhile_prefix isBlank _
    have hhead : c ∈ (text.dropWhile isBlank).head? := by
      rw [← hback, List.head?_append, Option.mem_def.mp hc, Option.some_or, Option.mem_some]
    exact not_isBlank_of_head?_dropWhile hhead
  · intro c hc
    rw [trim, List.getLast?_reverse] at hc
    exact not_isBlank_of_head?_dropWhile hc

theorem trim_eq_iff : trim text = inner ↔ Trimmed text inner :=
  ⟨fun h => h ▸ trimmed_trim, Trimmed.trim_eq⟩

end ShaderReflection.Blank
