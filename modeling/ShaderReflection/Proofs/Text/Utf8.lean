import Mathlib.Data.List.Forall2
import Mathlib.Tactic.SplitIfs
import ShaderReflection.Text.Utf8

/-!
Reading the UTF-8 bytes of a text gives the text back. A reader that is between two characters takes
in the bytes of one character and is then between characters again.
-/

namespace ShaderReflection.Utf8

theorem ByteRange.has_iff {range : ByteRange} {byte : UInt8} :
    range.has byte = true ↔ range.low.toNat ≤ byte.toNat ∧ byte.toNat ≤ range.high.toNat := by
  simp [ByteRange.has, UInt8.le_iff_toNat_le]

theorem lead?_eq (byte : UInt8) :
    lead? byte =
      if byte.toNat < 194 then none
      else if byte.toNat < 224 then some ⟨byte.toNat - 192, continuation, []⟩
      else if byte.toNat = 224 then some ⟨0, ⟨0xA0, 0xBF⟩, [continuation]⟩
      else if byte.toNat = 237 then some ⟨13, ⟨0x80, 0x9F⟩, [continuation]⟩
      else if byte.toNat < 240 then some ⟨byte.toNat - 224, continuation, [continuation]⟩
      else if byte.toNat = 240 then some ⟨0, ⟨0x90, 0xBF⟩, [continuation, continuation]⟩
      else if byte.toNat < 244 then
        some ⟨byte.toNat - 240, continuation, [continuation, continuation]⟩
      else if byte.toNat = 244 then some ⟨4, ⟨0x80, 0x8F⟩, [continuation, continuation]⟩
      else none := by
  unfold lead?
  simp only [UInt8.lt_iff_toNat_lt, ← UInt8.toNat_inj]
  rfl

namespace Reader

variable {read : List Char} {byte : UInt8} {bits : Nat} {next : ByteRange}

theorem push_ascii (hascii : byte.toNat < 128) :
    push ⟨read, none⟩ byte = ⟨Char.ofNat byte.toNat :: read, none⟩ := by
  have hlow : byte < 0x80 := UInt8.lt_iff_toNat_lt.mpr hascii
  simp [push, start, hlow, emit]

theorem push_lead {pending : Pending} (hlead : lead? byte = some pending) :
    push ⟨read, none⟩ byte = ⟨read, some pending⟩ := by
  have hhigh : ¬ byte < 0x80 := by
    intro hlow
    have hsmall : byte.toNat < 128 := UInt8.lt_iff_toNat_lt.mp hlow
    rw [lead?_eq, if_pos (by omega)] at hlead
    cases hlead
  simp [push, start, hhigh, hlead]

/-- The bytes of a character that has been read in part add six bits each and end it. -/
theorem foldl_push_pending {later : List ByteRange} {bytes : List UInt8}
    (hbytes : List.Forall₂ (fun range byte => range.has byte = true) (next :: later) bytes) :
    bytes.foldl push ⟨read, some ⟨bits, next, later⟩⟩ =
      ⟨Char.ofNat (bytes.foldl (fun bits byte => bits * 64 + byte.toNat % 64) bits) :: read,
        none⟩ := by
  induction later generalizing bits next bytes with
  | nil =>
      obtain ⟨byte, rest, hbyte, hrest, rfl⟩ := List.forall₂_cons_left_iff.mp hbytes
      obtain rfl := List.forall₂_nil_left_iff.mp hrest
      simp [push, hbyte, emit]
  | cons after later ih =>
      obtain ⟨byte, rest, hbyte, hrest, rfl⟩ := List.forall₂_cons_left_iff.mp hbytes
      rw [List.foldl_cons, List.foldl_cons, ← ih hrest]
      simp [push, hbyte]

/-- A character of several bytes is what its first byte promises and the others add. -/
theorem foldl_push_encoded {first : UInt8} {later : List ByteRange} {bytes : List UInt8}
    (hlead : lead? first = some ⟨bits, next, later⟩)
    (hbytes : List.Forall₂ (fun range byte => range.has byte = true) (next :: later) bytes) :
    (first :: bytes).foldl push ⟨read, none⟩ =
      ⟨Char.ofNat (bytes.foldl (fun bits byte => bits * 64 + byte.toNat % 64) bits) :: read,
        none⟩ := by
  rw [List.foldl_cons, push_lead hlead, foldl_push_pending hbytes]

end Reader

section Bytes

variable {n : Nat}

theorem toNat_byte (hn : n < 256) : (UInt8.ofNat n).toNat = n := UInt8.toNat_ofNat_of_lt' hn

theorem has_byte {range : ByteRange} (low high : Nat) (hlow : range.low.toNat = low)
    (hhigh : range.high.toNat = high) (hfrom : low ≤ n) (hto : n ≤ high) :
    range.has (UInt8.ofNat n) = true := by
  have hsize : range.high.toNat < 256 := range.high.toNat_lt
  rw [ByteRange.has_iff, toNat_byte (by omega), hlow, hhigh]
  exact ⟨hfrom, hto⟩

theorem continuation_has (v : Nat) : continuation.has (UInt8.ofNat (v % 64 + 128)) = true :=
  has_byte 128 191 rfl rfl (by omega) (by omega)

/-- What the first byte of a character of two bytes promises. -/
theorem lead?_two (hlow : 194 ≤ n) (hhigh : n < 224) :
    lead? (UInt8.ofNat n) = some ⟨n - 192, continuation, []⟩ := by
  rw [lead?_eq, toNat_byte (by omega), if_neg (by omega), if_pos hhigh]

/-- What the first byte of a character of three bytes promises. The second byte is restricted after
the first and the fourteenth of the leading bytes. -/
theorem lead?_three (hlow : 224 ≤ n) (hhigh : n < 240) :
    lead? (UInt8.ofNat n) = some ⟨n - 224,
      if n = 224 then ⟨0xA0, 0xBF⟩ else if n = 237 then ⟨0x80, 0x9F⟩ else continuation,
      [continuation]⟩ := by
  rw [lead?_eq, toNat_byte (by omega), if_neg (by omega), if_neg (by omega)]
  split_ifs with hfirst hsurrogate
  · simp [hfirst]
  · simp [hsurrogate]
  · rfl

/-- What the first byte of a character of four bytes promises. The second byte is restricted after
the first and the last of the leading bytes. -/
theorem lead?_four (hlow : 240 ≤ n) (hhigh : n ≤ 244) :
    lead? (UInt8.ofNat n) = some ⟨n - 240,
      if n = 240 then ⟨0x90, 0xBF⟩ else if n = 244 then ⟨0x80, 0x8F⟩ else continuation,
      [continuation, continuation]⟩ := by
  rw [lead?_eq, toNat_byte (by omega), if_neg (by omega), if_neg (by omega), if_neg (by omega),
    if_neg (by omega), if_neg (by omega)]
  split_ifs with hfirst hinner hlast hlast
  · simp [hfirst]
  · omega
  · rfl
  · simp [hlast]
  · omega

end Bytes

/-- The bytes of a character are read as that character. -/
theorem push_utf8EncodeChar (read : List Char) (c : Char) :
    (String.utf8EncodeChar c).foldl Reader.push ⟨read, none⟩ = ⟨c :: read, none⟩ := by
  have hvalid : c.val.toNat < 55296 ∨ 57343 < c.val.toNat ∧ c.val.toNat < 1114112 := c.valid
  have hchar : Char.ofNat c.val.toNat = c := Char.ofNat_toNat c
  unfold String.utf8EncodeChar
  generalize c.val.toNat = v at hvalid hchar
  subst hchar
  have hlast : (UInt8.ofNat (v % 64 + 128)).toNat = v % 64 + 128 := toNat_byte (by omega)
  have hmiddle : (UInt8.ofNat (v / 64 % 64 + 128)).toNat = v / 64 % 64 + 128 := toNat_byte (by omega)
  simp only
  split_ifs with hone htwo hthree
  · have hbyte : (UInt8.ofNat v).toNat = v := toNat_byte (by omega)
    rw [List.foldl_cons, Reader.push_ascii (by omega), hbyte]
    rfl
  · have hlead := lead?_two (n := v / 64 % 32 + 192) (by omega) (by omega)
    have hbits : (v / 64 % 32 + 192 - 192) * 64 + (v % 64 + 128) % 64 = v := by omega
    rw [Reader.foldl_push_encoded hlead (.cons (continuation_has v) .nil)]
    simp only [List.foldl_cons, List.foldl_nil, hlast, hbits]
  · have hlead := lead?_three (n := v / 4096 % 16 + 224) (by omega) (by omega)
    have hbits : ((v / 4096 % 16 + 224 - 224) * 64 + (v / 64 % 64 + 128) % 64) * 64 +
        (v % 64 + 128) % 64 = v := by omega
    rw [Reader.foldl_push_encoded hlead (.cons ?_ (.cons (continuation_has v) .nil))]
    · simp only [List.foldl_cons, List.foldl_nil, hlast, hmiddle, hbits]
    · split_ifs with hfirst hsurrogate
      · exact has_byte 160 191 rfl rfl (by omega) (by omega)
      · exact has_byte 128 159 rfl rfl (by omega) (by omega)
      · exact continuation_has (v / 64)
  · have hlead := lead?_four (n := v / 262144 % 8 + 240) (by omega) (by omega)
    have hsecond : (UInt8.ofNat (v / 4096 % 64 + 128)).toNat = v / 4096 % 64 + 128 :=
      toNat_byte (by omega)
    have hbits : (((v / 262144 % 8 + 240 - 240) * 64 + (v / 4096 % 64 + 128) % 64) * 64 +
        (v / 64 % 64 + 128) % 64) * 64 + (v % 64 + 128) % 64 = v := by omega
    rw [Reader.foldl_push_encoded hlead
      (.cons ?_ (.cons (continuation_has (v / 64)) (.cons (continuation_has v) .nil)))]
    · simp only [List.foldl_cons, List.foldl_nil, hlast, hmiddle, hsecond, hbits]
    · split_ifs with hfirst hfinal
      · exact has_byte 144 191 rfl rfl (by omega) (by omega)
      · exact has_byte 128 143 rfl rfl (by omega) (by omega)
      · exact continuation_has (v / 4096)

theorem foldl_push_utf8Encode (read chars : List Char) :
    (chars.flatMap String.utf8EncodeChar).foldl Reader.push ⟨read, none⟩ =
      ⟨chars.reverse ++ read, none⟩ := by
  induction chars generalizing read with
  | nil => rfl
  | cons c chars ih =>
      rw [List.flatMap_cons, List.foldl_append, push_utf8EncodeChar, ih, List.reverse_cons,
        List.append_assoc]
      rfl

theorem toList_loop_eq (image : ByteArray) (index : Nat) (done : List UInt8) :
    ByteArray.toList.loop image index done = done.reverse ++ image.data.toList.drop index := by
  fun_induction ByteArray.toList.loop image index done with
  | case1 index done hinside ih =>
      have hlength : index < image.data.toList.length := by simpa using hinside
      have hbyte : image.get! index = image.data.toList[index] := by
        simp [ByteArray.get!, hinside]
      rw [ih, List.drop_eq_getElem_cons hlength, hbyte, List.reverse_cons, List.append_assoc]
      rfl
  | case2 index done houtside =>
      have hlength : image.data.toList.length ≤ index := by simpa using houtside
      rw [List.drop_eq_nil_of_le hlength, List.append_nil]

theorem toUTF8_toList (text : String) :
    text.toUTF8.toList = text.toList.flatMap String.utf8EncodeChar := by
  have hbytes : text.toUTF8 = (text.toList.flatMap String.utf8EncodeChar).toByteArray := by
    rw [String.toUTF8_eq_toByteArray, ← String.utf8Encode_toList]
    rfl
  rw [hbytes, ByteArray.toList, toList_loop_eq, List.toList_data_toByteArray]
  rfl

theorem length_toUTF8 (text : String) : text.toUTF8.toList.length = text.utf8ByteSize := by
  rw [ByteArray.toList, toList_loop_eq]
  rfl

theorem decode_toUTF8 (text : String) : decode text.toUTF8.toList = text.toList := by
  have hread := foldl_push_utf8Encode [] text.toList
  rw [List.append_nil] at hread
  rw [toUTF8_toList, decode]
  change (List.foldl Reader.push ⟨[], none⟩ _).finish = _
  rw [hread]
  exact List.reverse_reverse _

end ShaderReflection.Utf8
