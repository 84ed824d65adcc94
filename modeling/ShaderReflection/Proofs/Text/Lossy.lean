import ShaderReflection.Proofs.Text.Size
import ShaderReflection.Proofs.Text.Utf8

/-!
What bytes read as when they are not UTF-8. The bytes of characters are read as these, and where no
character can be read, the longest beginning of one, or a single byte that begins none, is read as
one U+FFFD.
-/

namespace ShaderReflection.Utf8

/-- Whether some bytes are those of a character or the first of them. -/
def Begins (bytes : List UInt8) : Prop := ∃ c, bytes <+: String.utf8EncodeChar c

/-- Whether `part` is the maximal invalid part at a place where no character can be read. It is a
single byte or the beginning of a character, and the bytes behind it make no longer beginning. -/
structure Invalid (part rest : List UInt8) : Prop where
  unreadable : ∀ c, ¬ String.utf8EncodeChar c <+: part ++ rest
  nonempty : part ≠ []
  begins : part.length = 1 ∨ Begins part
  longest : ∀ more, more ≠ [] → more <+: rest → ¬ Begins (part ++ more)

/-- Whether some bytes lie in some ranges, one in each. -/
abbrev Fits (ranges : List ByteRange) (bytes : List UInt8) : Prop :=
  List.Forall₂ (fun range byte => range.has byte = true) ranges bytes

/-- What bytes read as. -/
inductive Reads : List UInt8 → List Char → Prop
  | nil : Reads [] []
  | char (c : Char) {rest text} :
      Reads rest text → Reads (String.utf8EncodeChar c ++ rest) (c :: text)
  | invalid {part rest text} :
      Invalid part rest → Reads rest text → Reads (part ++ rest) (replacement :: text)

section Parts

variable {part rest : List UInt8}

theorem Begins.of_prefix {longer : List UInt8} (h : Begins longer) (hfront : part <+: longer) :
    Begins part := by
  obtain ⟨c, hc⟩ := h
  exact ⟨c, hfront.trans hc⟩

/-- A part is maximal if it cannot be continued by the next byte. -/
theorem Invalid.of_stop (hnonempty : part ≠ []) (hbegins : part.length = 1 ∨ Begins part)
    (hunfinished : ∀ c, ¬ String.utf8EncodeChar c <+: part)
    (hstop : ∀ byte, rest.head? = some byte → ¬ Begins (part ++ [byte])) : Invalid part rest := by
  have hlongest : ∀ more, more ≠ [] → more <+: rest → ¬ Begins (part ++ more) := by
    intro more hmore hfront hlonger
    obtain ⟨byte, more, rfl⟩ := List.exists_cons_of_ne_nil hmore
    obtain ⟨after, rfl⟩ := hfront
    refine hstop byte rfl (hlonger.of_prefix ?_)
    rw [List.prefix_append_right_inj]
    exact ⟨more, rfl⟩
  refine ⟨fun c hc => ?_, hnonempty, hbegins, hlongest⟩
  have hpart := List.prefix_append part rest
  rcases List.prefix_or_prefix_of_prefix hc hpart with hshort | ⟨more, hmore⟩
  · exact hunfinished c hshort
  · rw [← hmore, List.prefix_append_right_inj] at hc
    by_cases hnil : more = []
    · rw [hnil, List.append_nil] at hmore
      exact hunfinished c ⟨[], by rw [List.append_nil, hmore]⟩
    · exact hlongest more hnil hc ⟨c, hmore ▸ List.prefix_refl _⟩

end Parts

namespace Reader

/-- Reading on never takes back what has been begun. -/
theorem begun_le_push (reader : Reader) (byte : UInt8) :
    reader.begun ≤ (reader.push byte).begun := by
  obtain ⟨read, pending⟩ := reader
  cases pending with
  | none =>
      change _ ≤ (start ⟨read, none⟩ byte).begun
      rw [begun_start]
      simp [begun]
  | some pending =>
      unfold push
      dsimp only
      split
      · split <;> simp [begun, emit]
      · rw [begun_start]
        simp [begun, emit]

theorem begun_le_foldl_push (bytes : List UInt8) (reader : Reader) :
    reader.begun ≤ (bytes.foldl push reader).begun := by
  induction bytes generalizing reader with
  | nil => exact Nat.le_refl _
  | cons byte rest ih => exact (reader.begun_le_push byte).trans (ih _)

/-- A reader that has also read some characters before. -/
def after (reader : Reader) (earlier : List Char) : Reader :=
  ⟨reader.read ++ earlier, reader.pending⟩

theorem start_after (reader : Reader) (earlier : List Char) (byte : UInt8) :
    (reader.after earlier).start byte = (reader.start byte).after earlier := by
  unfold start
  split
  · rfl
  · split <;> rfl

theorem push_after (reader : Reader) (earlier : List Char) (byte : UInt8) :
    (reader.after earlier).push byte = (reader.push byte).after earlier := by
  obtain ⟨read, pending⟩ := reader
  cases pending with
  | none => exact start_after ⟨read, none⟩ earlier byte
  | some pending =>
      unfold push
      dsimp only [after]
      split
      · split <;> rfl
      · exact start_after ⟨replacement :: read, none⟩ earlier byte

theorem finish_after (reader : Reader) (earlier : List Char) :
    (reader.after earlier).finish = earlier.reverse ++ reader.finish := by
  obtain ⟨read, pending⟩ := reader
  cases pending <;> simp [finish, after, emit]

/-- What is read later does not depend on what was read before. -/
theorem finish_foldl_push (bytes : List UInt8) (reader : Reader) (earlier : List Char) :
    (bytes.foldl push (reader.after earlier)).finish =
      earlier.reverse ++ (bytes.foldl push reader).finish := by
  induction bytes generalizing reader with
  | nil => exact finish_after reader earlier
  | cons byte rest ih => rw [List.foldl_cons, push_after, ih, List.foldl_cons]

end Reader

section Decode

theorem decode_append {first : List UInt8} {c : Char} (rest : List UInt8)
    (hfirst : first.foldl Reader.push .empty = ⟨[c], none⟩) :
    decode (first ++ rest) = c :: decode rest := by
  rw [decode, List.foldl_append, hfirst]
  exact Reader.finish_foldl_push rest .empty [c]

theorem decode_char (c : Char) (rest : List UInt8) :
    decode (String.utf8EncodeChar c ++ rest) = c :: decode rest :=
  decode_append rest (push_utf8EncodeChar [] c)

/-- A reader has begun no more than one character after bytes that begin one. -/
theorem Begins.begun_le {bytes : List UInt8} (h : Begins bytes) :
    (bytes.foldl Reader.push .empty).begun ≤ 1 := by
  obtain ⟨c, more, hc⟩ := h
  have hread := push_utf8EncodeChar [] c
  rw [← hc, List.foldl_append] at hread
  have hle := Reader.begun_le_foldl_push more (bytes.foldl Reader.push ⟨[], none⟩)
  rw [hread] at hle
  exact hle

/-- A reader that has read one character begins another with the next byte. -/
theorem two_le_begun (c : Char) {more : List UInt8} (hmore : more ≠ []) :
    2 ≤ (more.foldl Reader.push ⟨[c], none⟩).begun := by
  obtain ⟨byte, more, rfl⟩ := List.exists_cons_of_ne_nil hmore
  have hfirst : (Reader.push ⟨[c], none⟩ byte).begun = 2 := Reader.begun_start ⟨[c], none⟩ byte
  rw [← hfirst]
  exact Reader.begun_le_foldl_push more _

/-- Bytes after which a reader is in the middle of its first character hold no character. -/
theorem not_prefix_of_pending {bytes : List UInt8} {pending : Pending}
    (hbytes : bytes.foldl Reader.push .empty = ⟨[], some pending⟩) (c : Char) :
    ¬ String.utf8EncodeChar c <+: bytes := by
  rintro ⟨more, rfl⟩
  have hread : (String.utf8EncodeChar c).foldl Reader.push .empty = ⟨[c], none⟩ :=
    push_utf8EncodeChar [] c
  rw [List.foldl_append, hread] at hbytes
  have hmore : more ≠ [] := by
    rintro rfl
    cases hbytes
  have htwo := two_le_begun c hmore
  rw [hbytes] at htwo
  exact absurd htwo (by simp [Reader.begun])

/-- A byte that a reader refuses in the middle of a character continues none. -/
theorem not_begins_of_refused {bytes : List UInt8} {byte : UInt8} {pending : Pending}
    (hbytes : bytes.foldl Reader.push .empty = ⟨[], some pending⟩)
    (hbyte : ¬ pending.next.has byte = true) : ¬ Begins (bytes ++ [byte]) := by
  intro hbegins
  -- The reader closes an invalid part and begins again, but one character begins only once.
  have hle := hbegins.begun_le
  have hpush : Reader.push ⟨[], some pending⟩ byte = Reader.start ⟨[replacement], none⟩ byte := by
    simp [Reader.push, hbyte, Reader.emit]
  rw [List.foldl_append, hbytes, List.foldl_cons, List.foldl_nil, hpush, Reader.begun_start] at hle
  exact absurd hle (by decide)

/-- A byte that leads nothing begins nothing. -/
theorem not_begins_of_stray {byte : UInt8} (hhigh : ¬ byte < 0x80) (hstray : lead? byte = none) :
    ¬ Begins [byte] := by
  rintro ⟨c, more, hc⟩
  have hread : (String.utf8EncodeChar c).foldl Reader.push .empty = ⟨[c], none⟩ :=
    push_utf8EncodeChar [] c
  have hpush : Reader.push .empty byte = ⟨[replacement], none⟩ := by
    simp [Reader.push, Reader.start, Reader.empty, hhigh, hstray, Reader.emit]
  rw [← hc, List.singleton_append, List.foldl_cons, hpush] at hread
  have hmore : more ≠ [] := by
    rintro rfl
    cases hread
    have hlength : (String.utf8EncodeChar replacement).length = 3 := rfl
    rw [← hc] at hlength
    cases hlength
  have htwo := two_le_begun replacement hmore
  rw [hread] at htwo
  exact absurd htwo (by simp [Reader.begun])

end Decode

section Characters

variable {n : Nat}

theorem utf8EncodeChar_ofNat {v : Nat} (hvalid : v < 55296 ∨ 57343 < v ∧ v < 1114112) :
    String.utf8EncodeChar (Char.ofNat v) =
      if v ≤ 127 then [UInt8.ofNat v]
      else if v ≤ 2047 then [UInt8.ofNat (v / 64 % 32 + 192), UInt8.ofNat (v % 64 + 128)]
      else if v ≤ 65535 then
        [UInt8.ofNat (v / 4096 % 16 + 224), UInt8.ofNat (v / 64 % 64 + 128),
          UInt8.ofNat (v % 64 + 128)]
      else
        [UInt8.ofNat (v / 262144 % 8 + 240), UInt8.ofNat (v / 4096 % 64 + 128),
          UInt8.ofNat (v / 64 % 64 + 128), UInt8.ofNat (v % 64 + 128)] := by
  have hval : (Char.ofNat v).val.toNat = v := by
    rw [Char.ofNat, dif_pos hvalid]
    rfl
  unfold String.utf8EncodeChar
  simp only [hval]

variable {first second third fourth : UInt8}

theorem exists_char_of_two (hfirst : 194 ≤ first.toNat ∧ first.toNat < 224)
    (hsecond : continuation.has second = true) :
    ∃ c, String.utf8EncodeChar c = [first, second] := by
  obtain ⟨hlow, hhigh⟩ : 128 ≤ second.toNat ∧ second.toNat ≤ 191 := ByteRange.has_iff.mp hsecond
  refine ⟨Char.ofNat ((first.toNat - 192) * 64 + (second.toNat - 128)), ?_⟩
  rw [utf8EncodeChar_ofNat (by omega), if_neg (by omega), if_pos (by omega)]
  simp only [List.cons.injEq, and_true, ← UInt8.toNat_inj, Word.toNat_byte_of]
  omega

theorem exists_char_of_three (hfirst : 224 ≤ first.toNat ∧ first.toNat < 240)
    (hsecond : 128 ≤ second.toNat ∧ second.toNat ≤ 191)
    (hshort : first.toNat = 224 → 160 ≤ second.toNat)
    (hsurrogate : first.toNat = 237 → second.toNat ≤ 159)
    (hthird : continuation.has third = true) :
    ∃ c, String.utf8EncodeChar c = [first, second, third] := by
  obtain ⟨hlow, hhigh⟩ : 128 ≤ third.toNat ∧ third.toNat ≤ 191 := ByteRange.has_iff.mp hthird
  refine ⟨Char.ofNat (((first.toNat - 224) * 64 + (second.toNat - 128)) * 64 +
    (third.toNat - 128)), ?_⟩
  rw [utf8EncodeChar_ofNat (by omega), if_neg (by omega), if_neg (by omega), if_pos (by omega)]
  simp only [List.cons.injEq, and_true, ← UInt8.toNat_inj, Word.toNat_byte_of]
  omega

theorem exists_char_of_four (hfirst : 240 ≤ first.toNat ∧ first.toNat ≤ 244)
    (hsecond : 128 ≤ second.toNat ∧ second.toNat ≤ 191)
    (hshort : first.toNat = 240 → 144 ≤ second.toNat)
    (hlast : first.toNat = 244 → second.toNat ≤ 143)
    (hthird : continuation.has third = true) (hfourth : continuation.has fourth = true) :
    ∃ c, String.utf8EncodeChar c = [first, second, third, fourth] := by
  obtain ⟨hlow, hhigh⟩ : 128 ≤ third.toNat ∧ third.toNat ≤ 191 := ByteRange.has_iff.mp hthird
  obtain ⟨hlow', hhigh'⟩ : 128 ≤ fourth.toNat ∧ fourth.toNat ≤ 191 := ByteRange.has_iff.mp hfourth
  refine ⟨Char.ofNat ((((first.toNat - 240) * 64 + (second.toNat - 128)) * 64 +
    (third.toNat - 128)) * 64 + (fourth.toNat - 128)), ?_⟩
  rw [utf8EncodeChar_ofNat (by omega), if_neg (by omega), if_neg (by omega), if_neg (by omega)]
  simp only [List.cons.injEq, and_true, ← UInt8.toNat_inj, Word.toNat_byte_of]
  omega

/-- What a leading byte promises and how it restricts the byte behind it. -/
theorem lead_cases {bits : Nat} {next : ByteRange} {later : List ByteRange}
    (hlead : lead? first = some ⟨bits, next, later⟩) :
    ((194 ≤ first.toNat ∧ first.toNat < 224) ∧ next = continuation ∧ later = []) ∨
      ((224 ≤ first.toNat ∧ first.toNat < 240) ∧
        next = (if first.toNat = 224 then ⟨0xA0, 0xBF⟩
          else if first.toNat = 237 then ⟨0x80, 0x9F⟩ else continuation) ∧
        later = [continuation]) ∨
      ((240 ≤ first.toNat ∧ first.toNat ≤ 244) ∧
        next = (if first.toNat = 240 then ⟨0x90, 0xBF⟩
          else if first.toNat = 244 then ⟨0x80, 0x8F⟩ else continuation) ∧
        later = [continuation, continuation]) := by
  have hself : UInt8.ofNat first.toNat = first := UInt8.ofNat_toNat
  have hlow : 194 ≤ first.toNat := by
    by_contra hlow
    rw [lead?_eq, if_pos (by omega)] at hlead
    cases hlead
  rcases Nat.lt_or_ge first.toNat 224 with htwo | htwo
  · have hpromised := lead?_two hlow htwo
    rw [hself, hlead, Option.some.injEq, Pending.mk.injEq] at hpromised
    exact .inl ⟨⟨hlow, htwo⟩, hpromised.2⟩
  rcases Nat.lt_or_ge first.toNat 240 with hthree | hthree
  · have hpromised := lead?_three htwo hthree
    rw [hself, hlead, Option.some.injEq, Pending.mk.injEq] at hpromised
    exact .inr (.inl ⟨⟨htwo, hthree⟩, hpromised.2⟩)
  rcases Nat.lt_or_ge 244 first.toNat with hfour | hfour
  · have hnone : lead? first = none := by
      rw [lead?_eq]
      iterate 8 rw [if_neg (by omega)]
    rw [hnone] at hlead
    cases hlead
  · have hpromised := lead?_four hthree hfour
    rw [hself, hlead, Option.some.injEq, Pending.mk.injEq] at hpromised
    exact .inr (.inr ⟨⟨hthree, hfour⟩, hpromised.2⟩)

/-- Every range that a leading byte promises has a byte. -/
theorem has_low_of_lead {bits : Nat} {next : ByteRange} {later : List ByteRange}
    (hlead : lead? first = some ⟨bits, next, later⟩) :
    ∀ range ∈ next :: later, range.has range.low = true := by
  rcases lead_cases hlead with ⟨-, rfl, rfl⟩ | ⟨-, rfl, rfl⟩ | ⟨-, rfl, rfl⟩
  · decide
  all_goals split_ifs <;> decide

/-- A leading byte and bytes in the ranges that it promises are those of a character. -/
theorem exists_char_of_lead {bits : Nat} {next : ByteRange} {later : List ByteRange}
    {bytes : List UInt8} (hlead : lead? first = some ⟨bits, next, later⟩)
    (hbytes : Fits (next :: later) bytes) : ∃ c, String.utf8EncodeChar c = first :: bytes := by
  obtain ⟨second, rest, hsecond, hrest, rfl⟩ := List.forall₂_cons_left_iff.mp hbytes
  rcases lead_cases hlead with ⟨hfirst, rfl, rfl⟩ | ⟨hfirst, hnext, rfl⟩ | ⟨hfirst, hnext, rfl⟩
  · obtain rfl := List.forall₂_nil_left_iff.mp hrest
    exact exists_char_of_two hfirst hsecond
  · obtain ⟨third, behind, hthird, hbehind, rfl⟩ := List.forall₂_cons_left_iff.mp hrest
    obtain rfl := List.forall₂_nil_left_iff.mp hbehind
    rw [hnext, ByteRange.has_iff] at hsecond
    refine exists_char_of_three hfirst ?_ ?_ ?_ hthird <;>
      split_ifs at hsecond <;>
      simp only [continuation, UInt8.reduceToNat] at hsecond <;>
      omega
  · obtain ⟨third, behind, hthird, hbehind, rfl⟩ := List.forall₂_cons_left_iff.mp hrest
    obtain ⟨fourth, last, hfourth, hlast, rfl⟩ := List.forall₂_cons_left_iff.mp hbehind
    obtain rfl := List.forall₂_nil_left_iff.mp hlast
    rw [hnext, ByteRange.has_iff] at hsecond
    refine exists_char_of_four hfirst ?_ ?_ ?_ hthird hfourth <;>
      split_ifs at hsecond <;>
      simp only [continuation, UInt8.reduceToNat] at hsecond <;>
      omega

end Characters

section Totality

/-- Bytes lie in some ranges one after the other, or they do so up to a byte that does not, or up to
their end. -/
theorem accepted_cases (ranges : List ByteRange) (bytes : List UInt8) :
    (∃ taken rest, bytes = taken ++ rest ∧ Fits ranges taken) ∨
      ∃ passed next later seen rest, ranges = passed ++ next :: later ∧ bytes = seen ++ rest ∧
        Fits passed seen ∧ ∀ byte, rest.head? = some byte → ¬ next.has byte = true := by
  induction ranges generalizing bytes with
  | nil => exact .inl ⟨[], bytes, rfl, .nil⟩
  | cons range ranges ih =>
      cases bytes with
      | nil => exact .inr ⟨[], range, ranges, [], [], rfl, rfl, .nil, by simp⟩
      | cons byte bytes =>
          by_cases hbyte : range.has byte = true
          · rcases ih bytes with ⟨taken, rest, rfl, htaken⟩ |
              ⟨passed, next, later, seen, rest, rfl, rfl, hseen, hstop⟩
            · exact .inl ⟨byte :: taken, rest, rfl, .cons hbyte htaken⟩
            · exact .inr ⟨range :: passed, next, later, byte :: seen, rest, rfl, rfl,
                .cons hbyte hseen, hstop⟩
          · refine .inr ⟨[], range, ranges, [], byte :: bytes, rfl, rfl, .nil, ?_⟩
            rintro _ ⟨⟩
            exact hbyte

/-- A reader stays in the middle of a character as long as ranges are left. -/
theorem exists_pending {passed later others : List ByteRange} {seen : List UInt8}
    {next promised : ByteRange} (bits : Nat)
    (hranges : promised :: others = passed ++ next :: later) (hseen : Fits passed seen) :
    ∃ bits', seen.foldl Reader.push ⟨[], some ⟨bits, promised, others⟩⟩ =
      ⟨[], some ⟨bits', next, later⟩⟩ := by
  induction hseen generalizing bits promised others with
  | nil =>
      cases hranges
      exact ⟨bits, rfl⟩
  | @cons range byte passed seen hbyte _ ih =>
      obtain ⟨rfl, hlater⟩ := List.cons.inj hranges
      obtain ⟨following, behind, hbehind⟩ : ∃ following behind, others = following :: behind :=
        List.exists_cons_of_ne_nil (by rw [hlater]; simp)
      subst hbehind
      have hpush : Reader.push ⟨[], some ⟨bits, promised, following :: behind⟩⟩ byte =
          ⟨[], some ⟨bits * 64 + byte.toNat % 64, following, behind⟩⟩ := by
        simp [Reader.push, hbyte]
      rw [List.foldl_cons, hpush]
      exact ih _ hlater

/-- Bytes that a reader has taken for the beginning of a character are one. -/
theorem begins_of_accepted {first : UInt8} {bits : Nat} {next promised : ByteRange}
    {passed later others : List ByteRange} {seen : List UInt8}
    (hlead : lead? first = some ⟨bits, promised, others⟩)
    (hranges : promised :: others = passed ++ next :: later) (hseen : Fits passed seen) :
    Begins (first :: seen) := by
  have hlow := has_low_of_lead hlead
  rw [hranges] at hlow
  have hcomplete : Fits (promised :: others) (seen ++ (next :: later).map (·.low)) := by
    rw [hranges]
    refine List.rel_append hseen ?_
    rw [List.forall₂_map_right_iff, List.forall₂_same]
    exact fun range hrange => hlow range (List.mem_append_right _ hrange)
  obtain ⟨c, hc⟩ := exists_char_of_lead hlead hcomplete
  exact ⟨c, _, hc.symm⟩

theorem decode_of_refused {bytes rest : List UInt8} {pending : Pending}
    (hbytes : bytes.foldl Reader.push .empty = ⟨[], some pending⟩)
    (hstop : ∀ byte, rest.head? = some byte → ¬ pending.next.has byte = true) :
    decode (bytes ++ rest) = replacement :: decode rest := by
  rw [decode, List.foldl_append, hbytes]
  cases rest with
  | nil => rfl
  | cons byte rest =>
      have hpush : Reader.push ⟨[], some pending⟩ byte =
          (Reader.push .empty byte).after [replacement] := by
        rw [← Reader.push_after]
        simp [Reader.push, hstop byte rfl, Reader.emit, Reader.after, Reader.empty]
      rw [List.foldl_cons, hpush, Reader.finish_foldl_push]
      rfl

/-- What stands first in some bytes is a character or an invalid part. -/
theorem first_cases (byte : UInt8) (bytes : List UInt8) :
    (∃ c rest, byte :: bytes = String.utf8EncodeChar c ++ rest) ∨
      ∃ part rest, byte :: bytes = part ++ rest ∧ Invalid part rest ∧
        decode (part ++ rest) = replacement :: decode rest := by
  by_cases hascii : byte < 0x80
  · have hlow : byte.toNat < 128 := UInt8.lt_iff_toNat_lt.mp hascii
    refine .inl ⟨Char.ofNat byte.toNat, bytes, ?_⟩
    rw [utf8EncodeChar_ofNat (by omega), if_pos (by omega), UInt8.ofNat_toNat]
    rfl
  cases hlead : lead? byte with
  | none =>
      have hstray := not_begins_of_stray hascii hlead
      refine .inr ⟨[byte], bytes, rfl, .of_stop (by simp) (.inl rfl) ?_ ?_, ?_⟩
      · intro c hc
        have hwhole := hc.eq_of_length_le (String.length_utf8EncodeChar c ▸ c.utf8Size_pos)
        exact hstray ⟨c, hwhole ▸ List.prefix_refl _⟩
      · intro next _ hbegins
        exact hstray (hbegins.of_prefix ⟨[next], rfl⟩)
      · apply decode_append
        simp [Reader.push, Reader.start, Reader.empty, hascii, hlead, Reader.emit]
  | some pending =>
      obtain ⟨bits, next, later⟩ := pending
      rcases accepted_cases (next :: later) bytes with ⟨taken, rest, rfl, htaken⟩ |
        ⟨passed, next', later', seen, rest, hranges, rfl, hseen, hstop⟩
      · obtain ⟨c, hc⟩ := exists_char_of_lead hlead htaken
        exact .inl ⟨c, rest, by rw [hc]; rfl⟩
      · obtain ⟨bits', hpending⟩ := exists_pending bits hranges hseen
        have hread : (byte :: seen).foldl Reader.push .empty =
            ⟨[], some ⟨bits', next', later'⟩⟩ := by
          rw [List.foldl_cons, Reader.empty, Reader.push_lead hlead, hpending]
        refine .inr ⟨byte :: seen, rest, rfl, .of_stop (by simp) (.inr ?_) ?_ ?_, ?_⟩
        · exact begins_of_accepted hlead hranges hseen
        · exact not_prefix_of_pending hread
        · exact fun next hnext => not_begins_of_refused hread (hstop next hnext)
        · exact decode_of_refused hread hstop

theorem reads_decode (bytes : List UInt8) : Reads bytes (decode bytes) := by
  induction hlength : bytes.length using Nat.strong_induction_on generalizing bytes with
  | _ length ih =>
      cases bytes with
      | nil => exact .nil
      | cons byte bytes =>
          rcases first_cases byte bytes with ⟨c, rest, hbytes⟩ |
            ⟨part, rest, hbytes, hpart, hdecode⟩
          · have hsize := c.utf8Size_pos
            rw [hbytes, List.length_append, String.length_utf8EncodeChar] at hlength
            rw [hbytes, decode_char]
            exact .char c (ih rest.length (by omega) rest rfl)
          · have hsize := List.length_pos_of_ne_nil hpart.nonempty
            rw [hbytes, List.length_append] at hlength
            rw [hbytes, hdecode]
            exact .invalid hpart (ih rest.length (by omega) rest rfl)

end Totality

section Uniqueness

/-- Of two maximal invalid parts at one place, neither is longer. -/
theorem Invalid.eq_of_prefix {part rest part' rest' : List UInt8} (h : Invalid part rest)
    (h' : Invalid part' rest') (happend : part ++ rest = part' ++ rest')
    (hfront : part <+: part') : part = part' := by
  obtain ⟨more, rfl⟩ := hfront
  by_contra hne
  have hmore : more ≠ [] := by
    rintro rfl
    exact hne (List.append_nil part).symm
  rw [List.append_assoc, List.append_cancel_left_eq] at happend
  rcases h'.begins with hone | hbegins
  · have hpart := List.length_pos_of_ne_nil h.nonempty
    have hlength := List.length_pos_of_ne_nil hmore
    rw [List.length_append] at hone
    omega
  · exact h.longest more hmore ⟨rest', happend.symm⟩ hbegins

theorem Invalid.unique {part rest part' rest' : List UInt8} (h : Invalid part rest)
    (h' : Invalid part' rest') (happend : part ++ rest = part' ++ rest') : part = part' := by
  have hpart : part <+: part' ++ rest' := happend ▸ List.prefix_append part rest
  rcases List.prefix_or_prefix_of_prefix hpart (List.prefix_append part' rest') with hle | hle
  · exact h.eq_of_prefix h' happend hle
  · exact (h'.eq_of_prefix h happend.symm hle).symm

theorem Reads.unique {bytes : List UInt8} {text text' : List Char} (h : Reads bytes text)
    (h' : Reads bytes text') : text = text' := by
  induction h generalizing text' with
  | nil =>
      generalize hbytes : [] = bytes at h'
      cases h' with
      | nil => rfl
      | char c => simp [String.utf8EncodeChar_ne_nil] at hbytes
      | invalid hpart => simp [hpart.nonempty] at hbytes
  | @char c rest text hrest ih =>
      generalize hbytes : String.utf8EncodeChar c ++ rest = bytes at h'
      cases h' with
      | nil => simp [String.utf8EncodeChar_ne_nil] at hbytes
      | @char c' rest' text' hrest' =>
          have hdecode := congrArg decode hbytes
          rw [decode_char, decode_char, List.cons.injEq] at hdecode
          obtain ⟨rfl, -⟩ := hdecode
          obtain rfl := List.append_cancel_left hbytes
          rw [ih hrest']
      | invalid hpart => exact absurd ⟨rest, hbytes⟩ (hpart.unreadable c)
  | @invalid part rest text hpart hrest ih =>
      generalize hbytes : part ++ rest = bytes at h'
      cases h' with
      | nil => simp [hpart.nonempty] at hbytes
      | char c => exact absurd ⟨_, hbytes.symm⟩ (hpart.unreadable c)
      | @invalid part' rest' text' hpart' hrest' =>
          obtain rfl := hpart.unique hpart' hbytes
          obtain rfl := List.append_cancel_left hbytes
          rw [ih hrest']

/-- A reader reads what the bytes read as. -/
theorem reads_iff {bytes : List UInt8} {text : List Char} :
    Reads bytes text ↔ decode bytes = text := by
  constructor
  · exact (reads_decode bytes).unique
  · rintro rfl
    exact reads_decode bytes

/-- Two bytes of four begin a character, and an overlong form begins none. -/
example : decode [0xF0, 0x9F, 0x41, 0xC0, 0xAF] = ['\uFFFD', 'A', '\uFFFD', '\uFFFD'] := by
  decide

end Uniqueness

end ShaderReflection.Utf8
