import Mathlib.Data.String.Basic
import ShaderReflection.Proofs.Word
import ShaderReflection.Text.Literal

/-!
How long a text can be that is read from bytes. No byte reads as more than one character, so the
operands of an instruction bound the text that they carry.
-/

namespace ShaderReflection

namespace Utf8.Reader

/-- How many characters a reader has read or is in the middle of. -/
def begun (reader : Reader) : Nat := reader.read.length + reader.pending.toList.length

theorem begun_start (reader : Reader) (byte : UInt8) :
    (reader.start byte).begun = reader.read.length + 1 := by
  unfold start
  split
  · simp [begun, emit]
  · split <;> simp [begun, emit]

theorem begun_push_le (reader : Reader) (byte : UInt8) :
    (reader.push byte).begun ≤ reader.begun + 1 := by
  obtain ⟨read, pending⟩ := reader
  cases pending with
  | none => exact (begun_start ⟨read, none⟩ byte).le
  | some pending =>
      unfold push
      dsimp only
      split
      · split <;> simp [begun, emit]
      · exact (begun_start ⟨replacement :: read, none⟩ byte).le

theorem begun_foldl_push_le (bytes : List UInt8) (reader : Reader) :
    (bytes.foldl push reader).begun ≤ reader.begun + bytes.length := by
  induction bytes generalizing reader with
  | nil => exact Nat.le_refl _
  | cons byte rest ih =>
      have hfirst := reader.begun_push_le byte
      have hrest := ih (reader.push byte)
      rw [List.foldl_cons, List.length_cons]
      omega

theorem length_finish (reader : Reader) : reader.finish.length = reader.begun := by
  unfold finish
  split <;> simp [begun, emit, *]

end Utf8.Reader

theorem Utf8.length_decode_le (bytes : List UInt8) : (decode bytes).length ≤ bytes.length := by
  have h := Reader.begun_foldl_push_le bytes .empty
  rw [decode, Reader.length_finish]
  simpa [Reader.begun, Reader.empty] using h

theorem utf8Len_le (chars : List Char) : String.utf8Len chars ≤ 4 * chars.length := by
  induction chars with
  | nil => exact Nat.le_refl _
  | cons c rest ih =>
      have hchar := c.utf8Size_le_four
      rw [String.utf8Len_cons, List.length_cons]
      omega

namespace Literal

variable {words : List Word} {start : Nat} {literal : String × Nat}

/-- A literal has been read from some full words and the word that ends it. -/
theorem exists_words_of_decode (h : decode? words start = some literal) :
    ∃ (full : List Word) (last : Word), start + full.length + 1 ≤ words.length ∧
      literal = (String.ofList (Utf8.decode
        (full.flatMap Word.bytes ++ (Word.bytes last).takeWhile (· != 0))),
        start + full.length + 1) := by
  unfold decode? at h
  simp only at h
  split at h
  · cases h
  next last after hlast =>
    have hlength := congrArg List.length hlast
    simp only [List.length_drop, List.length_cons] at hlength
    exact ⟨_, last, by omega, (Option.some.inj h).symm⟩

theorem next_le_of_decode (h : decode? words start = some literal) :
    literal.2 ≤ words.length := by
  obtain ⟨full, last, hlength, rfl⟩ := exists_words_of_decode h
  exact hlength

/-- The text of a literal takes at most four bytes for each byte of the words it is read from. -/
theorem utf8ByteSize_le_of_decode (h : decode? words start = some literal) :
    literal.1.utf8ByteSize ≤ 4 * (4 * words.length) := by
  obtain ⟨full, last, hlength, rfl⟩ := exists_words_of_decode h
  have hfull : (full.flatMap Word.bytes).length = 4 * full.length := Word.length_image full
  have hlast : ((Word.bytes last).takeWhile (· != 0)).length ≤ 4 :=
    (List.takeWhile_sublist _).length_le
  rw [String.utf8ByteSize_ofList]
  refine Nat.le_trans (utf8Len_le _) (Nat.mul_le_mul_left 4 ?_)
  refine Nat.le_trans (Utf8.length_decode_le _) ?_
  rw [List.length_append]
  omega

end Literal

end ShaderReflection
