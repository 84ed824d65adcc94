import Mathlib.Data.List.TakeWhile
import ShaderReflection.Proofs.Text.Utf8
import ShaderReflection.Proofs.Word
import ShaderReflection.Text.Literal

/-!
Where literals end and what they say. A literal is read up to the first zero byte at or after its
beginning, so it is readable exactly if there is one. A text that is packed into words is read back,
and the operand behind it is found.
-/

namespace ShaderReflection.Literal

/-- Whether a zero byte stands in the words from a place on. -/
def Ends (words : List Word) (start : Nat) : Prop :=
  ∃ word ∈ words.drop start, (0 : UInt8) ∈ Word.bytes word

theorem isFull_iff {word : Word} : isFull word = true ↔ (0 : UInt8) ∉ Word.bytes word := by
  rw [isFull, List.all_eq_true]
  constructor
  · intro hfull hzero
    have hne := hfull 0 hzero
    simp at hne
  · intro hfull byte hbyte
    have hne : byte ≠ 0 := by
      rintro rfl
      exact hfull hbyte
    simpa using hne

theorem drop_takeWhile_length {α : Type} (p : α → Bool) (items : List α) :
    items.drop (items.takeWhile p).length = items.dropWhile p := by
  have hsplit := congrArg (List.drop (items.takeWhile p).length)
    (List.takeWhile_append_dropWhile (p := p) (l := items))
  rw [List.drop_left' rfl] at hsplit
  exact hsplit.symm

theorem decode?_isSome_iff {words : List Word} {start : Nat} :
    (decode? words start).isSome = true ↔ Ends words start := by
  have hends : Ends words start ↔ (words.drop start).dropWhile isFull ≠ [] := by
    rw [ne_eq, List.dropWhile_eq_nil_iff, Ends]
    simp [isFull_iff]
  rw [hends, ← drop_takeWhile_length]
  unfold decode?
  simp only
  split
  · next hnone => simp [hnone]
  · next last rest hsome => simp [hsome]

theorem decode?_eq_none_iff {words : List Word} {start : Nat} :
    decode? words start = none ↔ ¬ Ends words start := by
  rw [← decode?_isSome_iff]
  simp

/-- The bytes of the words from a place on, up to the first zero byte. -/
def textBytes (words : List Word) (start : Nat) : List UInt8 :=
  (Word.image (words.drop start)).takeWhile (· != 0)

theorem length_takeWhile_bytes_lt {word : Word} (hword : isFull word = false) :
    ((Word.bytes word).takeWhile (· != 0)).length < (Word.bytes word).length := by
  apply Nat.lt_of_le_of_ne (List.takeWhile_prefix _).length_le
  intro hlength
  have hall := List.takeWhile_eq_self_iff.mp
    ((List.takeWhile_prefix (· != 0)).eq_of_length hlength)
  rw [isFull, List.all_eq_true.mpr hall] at hword
  cases hword

theorem takeWhile_image {full after : List Word} {last : Word}
    (hfull : ∀ word ∈ full, isFull word = true) (hlast : isFull last = false) :
    (Word.image (full ++ last :: after)).takeWhile (· != 0) =
      Word.image full ++ (Word.bytes last).takeWhile (· != 0) := by
  have hbefore : ∀ byte ∈ Word.image full, (byte != 0) = true := by
    intro byte hbyte
    obtain ⟨word, hword, hbyte⟩ := List.mem_flatMap.mp hbyte
    exact List.all_eq_true.mp (hfull word hword) byte hbyte
  have himage : Word.image (full ++ last :: after) =
      Word.image full ++ (Word.bytes last ++ Word.image after) := by
    simp [Word.image]
  rw [himage, List.takeWhile_append_of_pos hbefore, List.takeWhile_append,
    if_neg (Nat.ne_of_lt (length_takeWhile_bytes_lt hlast))]

/-- A literal is the bytes before the first zero byte, and the next operand begins behind the word
with that byte. -/
theorem decode?_eq_some {words : List Word} {start : Nat} (hends : Ends words start) :
    decode? words start =
      some (String.ofList (Utf8.decode (textBytes words start)),
        start + (textBytes words start).length / 4 + 1) := by
  have hsome := decode?_isSome_iff.mpr hends
  have hsplit := List.takeWhile_append_dropWhile (p := isFull) (l := words.drop start)
  have hdrop := drop_takeWhile_length isFull (words.drop start)
  have hfull : ∀ word ∈ (words.drop start).takeWhile isFull, isFull word = true :=
    fun word hword => List.mem_takeWhile_imp hword
  unfold decode? at hsome ⊢
  simp only at hsome ⊢
  cases hrest : (words.drop start).dropWhile isFull with
  | nil =>
      rw [hdrop, hrest] at hsome
      cases hsome
  | cons last after =>
      have hlast : isFull last = false := by
        have hhead := List.head_dropWhile_not (p := isFull) (l := words.drop start) (by simp [hrest])
        simpa [hrest] using hhead
      have hbytes : textBytes words start =
          Word.image ((words.drop start).takeWhile isFull) ++
            (Word.bytes last).takeWhile (· != 0) := by
        rw [hrest] at hsplit
        rw [textBytes, ← takeWhile_image hfull hlast, hsplit]
      have hshort := length_takeWhile_bytes_lt hlast
      have hfour : (Word.bytes last).length = 4 := rfl
      rw [hdrop, hrest, hbytes, List.length_append, Word.length_image]
      simp only [Option.some.injEq, Prod.mk.injEq]
      refine ⟨rfl, ?_⟩
      omega

section Encode

variable (text : String)

/-- The bytes that a text is packed with: its own, and then zeros. -/
theorem image_encode :
    Word.image (encode text) =
      text.toUTF8.toList ++ List.replicate (4 - text.toUTF8.toList.length % 4) 0 := by
  apply Word.image_ofImage
  simp only [List.length_append, List.length_replicate]
  omega

theorem length_encode : (encode text).length = text.toUTF8.toList.length / 4 + 1 := by
  have hlength := Word.length_image (encode text)
  rw [image_encode, List.length_append, List.length_replicate] at hlength
  omega

/-- Packing puts a zero byte behind a text, so what is read of it ends at its first zero byte or at
its own end. -/
theorem textBytes_encode (before after : List Word) :
    textBytes (before ++ (encode text ++ after)) before.length =
      text.toUTF8.toList.takeWhile (· != 0) := by
  obtain ⟨count, hcount⟩ : ∃ count, 4 - text.toUTF8.toList.length % 4 = count + 1 :=
    Nat.exists_eq_succ_of_ne_zero (by omega)
  have himage : Word.image (encode text ++ after) =
      text.toUTF8.toList ++ 0 :: (List.replicate count 0 ++ Word.image after) := by
    have happend : Word.image (encode text ++ after) =
        Word.image (encode text) ++ Word.image after := List.flatMap_append
    rw [happend, image_encode, hcount, List.replicate_succ, List.append_assoc]
    rfl
  rw [textBytes, List.drop_left' rfl, himage, List.takeWhile_append]
  split
  · next hlength =>
      have hself := (List.takeWhile_prefix (· != 0)).eq_of_length hlength
      rw [hself]
      simp
  · rfl

theorem ends_encode (before after : List Word) :
    Ends (before ++ (encode text ++ after)) before.length := by
  have hzero : (0 : UInt8) ∈ Word.image (encode text) := by
    rw [image_encode, List.mem_append, List.mem_replicate]
    exact Or.inr ⟨by omega, rfl⟩
  obtain ⟨word, hword, hzero⟩ := List.mem_flatMap.mp hzero
  refine ⟨word, ?_, hzero⟩
  rw [List.drop_left' rfl]
  exact List.mem_append_left after hword

theorem zero_notMem_utf8EncodeChar {c : Char} (hc : c ≠ '\x00') :
    (0 : UInt8) ∉ String.utf8EncodeChar c := by
  have hpositive : c.val.toNat ≠ 0 := by
    intro hzero
    apply hc
    rw [← Char.ofNat_toNat c]
    exact congrArg Char.ofNat hzero
  have hvalid : c.val.toNat < 55296 ∨ 57343 < c.val.toNat ∧ c.val.toNat < 1114112 := c.valid
  have hzero : (0 : UInt8).toNat = 0 := rfl
  unfold String.utf8EncodeChar
  generalize c.val.toNat = v at hpositive hvalid
  simp only
  split_ifs
  all_goals
    simp only [List.mem_cons, List.not_mem_nil, or_false, ← UInt8.toNat_inj, Word.toNat_byte_of,
      hzero]
    omega

theorem zero_notMem_toUTF8 (hclean : '\x00' ∉ text.toList) :
    (0 : UInt8) ∉ text.toUTF8.toList := by
  rw [Utf8.toUTF8_toList]
  intro hzero
  obtain ⟨c, hc, hzero⟩ := List.mem_flatMap.mp hzero
  apply zero_notMem_utf8EncodeChar ?_ hzero
  rintro rfl
  exact hclean hc

/-- A text without a zero character is read back from its packed form, wherever that stands, and
what follows it begins behind its last word. -/
theorem decode?_encode {text : String} (hclean : '\x00' ∉ text.toList) (before after : List Word) :
    decode? (before ++ (encode text ++ after)) before.length =
      some (text, before.length + (encode text).length) := by
  have hbytes : text.toUTF8.toList.takeWhile (· != 0) = text.toUTF8.toList := by
    rw [List.takeWhile_eq_self_iff]
    intro byte hbyte
    have hne : byte ≠ 0 := by
      rintro rfl
      exact zero_notMem_toUTF8 text hclean hbyte
    simpa using hne
  rw [decode?_eq_some (ends_encode text before after), textBytes_encode, hbytes,
    Utf8.decode_toUTF8, String.ofList_toList, length_encode, Nat.add_assoc]

end Encode

end ShaderReflection.Literal
