import ShaderReflection.Proofs.Text.Literal
import ShaderReflection.Proofs.Text.Lossy

/-!
What a literal is within the words around it. Its first zero byte decides where it ends and which
bytes are read, and packing the text again gives a literal that is read as the same text.
-/

namespace ShaderReflection

namespace Word

theorem image_drop (words : List Word) (count : Nat) :
    image (words.drop count) = (image words).drop (4 * count) := by
  induction count generalizing words with
  | zero => rfl
  | succ count ih =>
      cases words with
      | nil => rfl
      | cons word words => exact ih words

theorem image_take (words : List Word) (count : Nat) :
    image (words.take count) = (image words).take (4 * count) := by
  induction count generalizing words with
  | zero => rfl
  | succ count ih =>
      cases words with
      | nil => rfl
      | cons word words => exact congrArg (bytes word ++ ·) (ih words)

end Word

namespace Utf8

/-- No character but the zero character is read from bytes that are not zero. -/
theorem Reads.zero_notMem {bytes : List UInt8} {text : List Char} (h : Reads bytes text)
    (hbytes : (0 : UInt8) ∉ bytes) : '\x00' ∉ text := by
  induction h with
  | nil => exact List.not_mem_nil
  | char c _ ih =>
      rw [List.mem_append, not_or] at hbytes
      rw [List.mem_cons, not_or]
      refine ⟨?_, ih hbytes.2⟩
      rintro rfl
      exact hbytes.1 (by decide)
  | invalid _ _ ih =>
      rw [List.mem_append, not_or] at hbytes
      rw [List.mem_cons, not_or]
      exact ⟨by decide, ih hbytes.2⟩

end Utf8

namespace Literal

/-- Whether the literal that begins at a word is ended by the byte at a position of the image, the
first zero byte from there on. -/
structure EndsAt (words : List Word) (start position : Nat) : Prop where
  start_le : 4 * start ≤ position
  zero : (Word.image words)[position]? = some 0
  first : ∀ earlier, 4 * start ≤ earlier → earlier < position →
    (Word.image words)[earlier]? ≠ some 0

/-- The bytes from a word on that stand before a position of the image. -/
def bytesTo (words : List Word) (start position : Nat) : List UInt8 :=
  ((Word.image words).take position).drop (4 * start)

section Positions

variable {words : List Word} {start position : Nat}

theorem EndsAt.unique {other : Nat} (h : EndsAt words start position)
    (hother : EndsAt words start other) : position = other := by
  rcases Nat.lt_trichotomy position other with hlt | heq | hgt
  · exact absurd h.zero (hother.first position h.start_le hlt)
  · exact heq
  · exact absurd hother.zero (h.first other hother.start_le hgt)

theorem zero_notMem_textBytes (words : List Word) (start : Nat) :
    (0 : UInt8) ∉ textBytes words start := by
  intro hzero
  have hne := List.mem_takeWhile_imp hzero
  simp at hne

/-- The bytes of a literal stand before a zero byte. -/
theorem exists_image_drop (hends : Ends words start) :
    ∃ rest, (Word.image words).drop (4 * start) = textBytes words start ++ 0 :: rest := by
  have hzero : (0 : UInt8) ∈ Word.image (words.drop start) := List.mem_flatMap.mpr hends
  obtain ⟨before, rest, himage, hbefore⟩ := List.eq_append_cons_of_mem hzero
  have htext : textBytes words start = before := by
    rw [textBytes, himage, List.takeWhile_append_of_pos ?_, List.takeWhile_cons_of_neg (by simp),
      List.append_nil]
    intro byte hbyte
    exact bne_iff_ne.mpr (ne_of_mem_of_not_mem hbyte hbefore)
  exact ⟨rest, by rw [← Word.image_drop, himage, htext]⟩

theorem endsAt_textBytes (hends : Ends words start) :
    EndsAt words start (4 * start + (textBytes words start).length) := by
  obtain ⟨rest, hrest⟩ := exists_image_drop hends
  have hbyte : ∀ place, (Word.image words)[4 * start + place]? =
      (textBytes words start ++ 0 :: rest)[place]? := by
    intro place
    rw [← hrest, List.getElem?_drop]
  refine ⟨Nat.le_add_right _ _, ?_, ?_⟩
  · rw [hbyte, List.getElem?_append_right (Nat.le_refl _), Nat.sub_self]
    rfl
  · intro earlier hstart hearlier hzero
    obtain ⟨place, rfl⟩ := Nat.exists_eq_add_of_le hstart
    rw [hbyte, List.getElem?_append_left (by omega)] at hzero
    exact zero_notMem_textBytes words start (List.mem_of_getElem? hzero)

/-- A literal can be read exactly if a zero byte follows. -/
theorem ends_iff_exists_zero :
    Ends words start ↔
      ∃ position, 4 * start ≤ position ∧ (Word.image words)[position]? = some 0 := by
  constructor
  · intro hends
    have hat := endsAt_textBytes hends
    exact ⟨_, hat.start_le, hat.zero⟩
  · rintro ⟨position, hstart, hzero⟩
    have hdrop : (Word.image (words.drop start))[position - 4 * start]? = some 0 := by
      rw [Word.image_drop, List.getElem?_drop, Nat.add_sub_cancel' hstart, hzero]
    exact List.mem_flatMap.mp (List.mem_of_getElem? hdrop)

theorem EndsAt.ends (h : EndsAt words start position) : Ends words start :=
  ends_iff_exists_zero.mpr ⟨position, h.start_le, h.zero⟩

theorem EndsAt.textBytes_eq (h : EndsAt words start position) :
    textBytes words start = bytesTo words start position := by
  obtain ⟨rest, hrest⟩ := exists_image_drop h.ends
  obtain rfl := h.unique (endsAt_textBytes h.ends)
  rw [bytesTo, List.drop_take, hrest, Nat.add_sub_cancel_left, List.take_left]

/-- A literal is read as the bytes before its zero byte, and the next operand stands behind the word
with that byte. -/
theorem decode?_eq_some_iff {text : String} {next : Nat} :
    decode? words start = some (text, next) ↔
      ∃ position, EndsAt words start position ∧
        Utf8.Reads (bytesTo words start position) text.toList ∧ next = position / 4 + 1 := by
  constructor
  · intro h
    have hends : Ends words start := decode?_isSome_iff.mp (by rw [h]; rfl)
    have hat := endsAt_textBytes hends
    rw [decode?_eq_some hends, Option.some.injEq, Prod.mk.injEq] at h
    obtain ⟨rfl, rfl⟩ := h
    refine ⟨_, hat, ?_, by omega⟩
    rw [← hat.textBytes_eq, String.toList_ofList]
    exact Utf8.reads_decode _
  · rintro ⟨position, hat, hreads, rfl⟩
    have hposition := hat.unique (endsAt_textBytes hat.ends)
    rw [← hat.textBytes_eq, Utf8.reads_iff] at hreads
    rw [decode?_eq_some hat.ends, hreads, String.ofList_toList, hposition]
    congr 2
    omega

/-- The words behind a literal do not matter to it. -/
theorem decode?_congr {words' : List Word} {literal : String × Nat}
    (h : decode? words start = some literal)
    (hsame : words'.take literal.2 = words.take literal.2) :
    decode? words' start = some literal := by
  obtain ⟨text, next⟩ := literal
  obtain ⟨position, hat, hreads, rfl⟩ := decode?_eq_some_iff.mp h
  have himage : ∀ count, count ≤ 4 * (position / 4 + 1) →
      (Word.image words').take count = (Word.image words).take count := by
    intro count hcount
    have htaken := congrArg (fun words => (Word.image words).take count) hsame
    simpa only [Word.image_take, List.take_take, Nat.min_eq_left hcount] using htaken
  have hbyte : ∀ earlier ≤ position,
      (Word.image words')[earlier]? = (Word.image words)[earlier]? := by
    intro earlier hearlier
    have htake := congrArg (·[earlier]?) (himage (position + 1) (by omega))
    simpa only [List.getElem?_take_of_lt (Nat.lt_succ_of_le hearlier)] using htake
  refine decode?_eq_some_iff.mpr ⟨position, ⟨hat.start_le, ?_, ?_⟩, ?_, rfl⟩
  · rw [hbyte position (Nat.le_refl _), hat.zero]
  · intro earlier hstart hearlier
    rw [hbyte earlier hearlier.le]
    exact hat.first earlier hstart hearlier
  · rw [bytesTo, himage position (by omega)]
    exact hreads

end Positions

section Repacking

/-- A text that has been read holds no zero character. -/
theorem zero_notMem_of_decode {words : List Word} {start next : Nat} {text : String}
    (h : decode? words start = some (text, next)) : '\x00' ∉ text.toList := by
  obtain ⟨position, hat, hreads, -⟩ := decode?_eq_some_iff.mp h
  apply hreads.zero_notMem
  rw [← hat.textBytes_eq]
  exact zero_notMem_textBytes words start

/-- A text up to its first zero character. -/
def beforeZero (text : String) : String := String.ofList (text.toList.takeWhile (· != '\x00'))

theorem takeWhile_toUTF8 (text : String) :
    text.toUTF8.toList.takeWhile (· != 0) = (beforeZero text).toUTF8.toList := by
  rw [Utf8.toUTF8_toList, Utf8.toUTF8_toList, beforeZero, String.toList_ofList]
  induction text.toList with
  | nil => rfl
  | cons c chars ih =>
      rw [List.flatMap_cons]
      by_cases hc : c = '\x00'
      · subst hc
        rfl
      · have hclean : ∀ byte ∈ String.utf8EncodeChar c, (byte != 0) = true := fun byte hbyte =>
          bne_iff_ne.mpr (ne_of_mem_of_not_mem hbyte (zero_notMem_utf8EncodeChar hc))
        have hkept : (c :: chars).takeWhile (· != '\x00') = c :: chars.takeWhile (· != '\x00') :=
          List.takeWhile_cons_of_pos (bne_iff_ne.mpr hc)
        rw [List.takeWhile_append_of_pos hclean, ih, hkept, List.flatMap_cons]

/-- Of a text that is packed between other words, the part before its first zero character is read,
and the zero byte behind it ends the literal. -/
theorem decode?_encode_beforeZero (before after : List Word) (text : String) :
    let last := 4 * before.length + (beforeZero text).utf8ByteSize
    EndsAt (before ++ (encode text ++ after)) before.length last ∧
      decode? (before ++ (encode text ++ after)) before.length =
        some (beforeZero text, last / 4 + 1) := by
  have hends := ends_encode text before after
  have hat := endsAt_textBytes hends
  have hread := decode?_eq_some hends
  rw [textBytes_encode, takeWhile_toUTF8, Utf8.length_toUTF8] at hat
  rw [textBytes_encode, takeWhile_toUTF8, Utf8.length_toUTF8, Utf8.decode_toUTF8,
    String.ofList_toList] at hread
  refine ⟨hat, ?_⟩
  rw [hread]
  congr 2
  omega

end Repacking

/-- Literals are read exactly. Packed texts are found again between other words, up to their first
zero character. In any words, a literal is there exactly if a zero byte follows, and then the bytes
before the first one are read, with one U+FFFD for each maximal invalid part. The words behind that
byte do not matter, and packing what was read gives a literal that is read as the same text. -/
theorem literals_read_exactly :
    (∀ before after text,
      let last := 4 * before.length + (beforeZero text).utf8ByteSize
      EndsAt (before ++ (encode text ++ after)) before.length last ∧
        decode? (before ++ (encode text ++ after)) before.length =
          some (beforeZero text, last / 4 + 1) ∧
        ('\x00' ∉ text.toList →
          decode? (before ++ (encode text ++ after)) before.length =
            some (text, before.length + (encode text).length))) ∧
      ∀ words start,
        ((decode? words start).isSome = true ↔
          ∃ position, 4 * start ≤ position ∧ (Word.image words)[position]? = some 0) ∧
        ∀ text next,
          (decode? words start = some (text, next) ↔
            ∃ position, EndsAt words start position ∧
              Utf8.Reads (bytesTo words start position) text.toList ∧ next = position / 4 + 1) ∧
          (decode? words start = some (text, next) →
            (∀ words' : List Word, words'.take next = words.take next →
              decode? words' start = some (text, next)) ∧
            decode? (encode text) 0 = some (text, (encode text).length)) := by
  constructor
  · intro before after text
    obtain ⟨hat, hread⟩ := decode?_encode_beforeZero before after text
    exact ⟨hat, hread, fun hclean => decode?_encode hclean before after⟩
  · intro words start
    refine ⟨decode?_isSome_iff.trans ends_iff_exists_zero, fun text next => ?_⟩
    refine ⟨decode?_eq_some_iff, fun h => ⟨fun words' hsame => decode?_congr h hsame, ?_⟩⟩
    have hagain := decode?_encode (zero_notMem_of_decode h) [] []
    rwa [List.nil_append, List.append_nil, List.length_nil, Nat.zero_add] at hagain

/-- A letter and two bytes of a character that has three, before a word that belongs to the next
operand. -/
theorem literals_read_exactly_cut_character :
    decode? [7, 0x0082E241] 1 = some ("A\uFFFD", 2) ∧
      decode? ([1, 2] ++ (encode "fold" ++ [9])) 2 = some ("fold", 4) ∧
      decode? (encode "A\uFFFD") 0 = some ("A\uFFFD", 2) := by
  obtain ⟨hpacked, hread⟩ := literals_read_exactly
  have hcut : decode? [7, 0x0082E241, 8] 1 = some ("A\uFFFD", 2) := by decide +kernel
  obtain ⟨hwords, hagain⟩ := ((hread [7, 0x0082E241, 8] 1).2 "A\uFFFD" 2).2 hcut
  have hfold := (hpacked [1, 2] [9] "fold").2.2 (by decide)
  have hlength : (encode "fold").length = 2 := by decide +kernel
  have hlength' : (encode "A\uFFFD").length = 2 := by decide +kernel
  rw [hlength] at hfold
  rw [hlength'] at hagain
  exact ⟨hwords [7, 0x0082E241] rfl, hfold, hagain⟩

end Literal

end ShaderReflection
