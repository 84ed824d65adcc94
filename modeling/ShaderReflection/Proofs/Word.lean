import ShaderReflection.Word

/-!
Sums and products of words are exact where they are given at all, and words and their byte images
determine each other.
-/

namespace ShaderReflection.Word

theorem exists_toNat_eq {n : Nat} (hfits : n < UInt32.size) : ∃ word : Word, word.toNat = n :=
  ⟨UInt32.ofNat n, UInt32.toNat_ofNat_of_lt hfits⟩

theorem add?_eq_some_iff {a b sum : Word} :
    add? a b = some sum ↔ sum.toNat = a.toNat + b.toNat := by
  unfold add?
  by_cases hfits : a.toNat + b.toNat < UInt32.size
  · rw [if_pos hfits, Option.some.injEq, ← UInt32.toNat_inj, UInt32.toNat_add,
      Nat.mod_eq_of_lt hfits, eq_comm]
  · have hsum := sum.toNat_lt_size
    rw [if_neg hfits]
    constructor
    · intro h
      cases h
    · omega

theorem mul?_eq_some_iff {a b product : Word} :
    mul? a b = some product ↔ product.toNat = a.toNat * b.toNat := by
  unfold mul?
  by_cases hfits : a.toNat * b.toNat < UInt32.size
  · rw [if_pos hfits, Option.some.injEq, ← UInt32.toNat_inj, UInt32.toNat_mul,
      Nat.mod_eq_of_lt hfits, eq_comm]
  · have hproduct := product.toNat_lt_size
    rw [if_neg hfits]
    constructor
    · intro h
      cases h
    · omega

theorem add?_eq_none_iff {a b : Word} : add? a b = none ↔ UInt32.size ≤ a.toNat + b.toNat := by
  unfold add?
  by_cases hfits : a.toNat + b.toNat < UInt32.size
  · rw [if_pos hfits]
    exact iff_of_false (Option.some_ne_none _) (Nat.not_le_of_lt hfits)
  · rw [if_neg hfits]
    exact iff_of_true rfl (Nat.le_of_not_lt hfits)

theorem mul?_eq_none_iff {a b : Word} : mul? a b = none ↔ UInt32.size ≤ a.toNat * b.toNat := by
  unfold mul?
  by_cases hfits : a.toNat * b.toNat < UInt32.size
  · rw [if_pos hfits]
    exact iff_of_false (Option.some_ne_none _) (Nat.not_le_of_lt hfits)
  · rw [if_neg hfits]
    exact iff_of_true rfl (Nat.le_of_not_lt hfits)

theorem toNat_byte_of (n : Nat) : (UInt8.ofNat n).toNat = n % 256 := UInt8.toNat_ofNat'

theorem ofBytes_bytes (word : Word) :
    ofBytes (UInt8.ofNat word.toNat) (UInt8.ofNat (word.toNat / 256))
      (UInt8.ofNat (word.toNat / 65536)) (UInt8.ofNat (word.toNat / 16777216)) = word := by
  have hword : word.toNat < 4294967296 := word.toNat_lt
  apply UInt32.toNat_inj.mp
  simp only [ofBytes, toNat_byte_of, UInt32.toNat_ofNat']
  omega

theorem bytes_ofBytes (first second third fourth : UInt8) :
    bytes (ofBytes first second third fourth) = [first, second, third, fourth] := by
  have hfirst : first.toNat < 256 := first.toNat_lt
  have hsecond : second.toNat < 256 := second.toNat_lt
  have hthird : third.toNat < 256 := third.toNat_lt
  have hfourth : fourth.toNat < 256 := fourth.toNat_lt
  simp only [bytes, ofBytes, UInt32.toNat_ofNat', List.cons.injEq, and_true, ← UInt8.toNat_inj,
    toNat_byte_of]
  omega

theorem collect_eq (done : List Word) :
    ∀ image : List UInt8, collect done image = done.reverse ++ collect [] image
  | first :: second :: third :: fourth :: rest => by
      rw [collect, collect, collect_eq (_ :: done) rest, collect_eq [_] rest]
      simp
  | [] | [_] | [_, _] | [_, _, _] => by simp [collect]

theorem ofImage_cons (first second third fourth : UInt8) (rest : List UInt8) :
    ofImage (first :: second :: third :: fourth :: rest) =
      ofBytes first second third fourth :: ofImage rest := by
  rw [ofImage, collect, collect_eq]
  rfl

theorem ofImage_image (words : List Word) : ofImage (image words) = words := by
  induction words with
  | nil => rfl
  | cons word rest ih =>
      change ofImage (_ :: _ :: _ :: _ :: image rest) = _
      rw [ofImage_cons, ofBytes_bytes, ih]

/-- Nothing is lost of an image that is made of whole words. -/
theorem image_ofImage : ∀ bytes : List UInt8, bytes.length % 4 = 0 → image (ofImage bytes) = bytes
  | first :: second :: third :: fourth :: rest, hwhole => by
      have hrest : rest.length % 4 = 0 := by
        simp only [List.length_cons] at hwhole
        omega
      have ih := image_ofImage rest hrest
      rw [ofImage_cons, image, List.flatMap_cons, bytes_ofBytes]
      exact congrArg ([first, second, third, fourth] ++ ·) ih
  | [], _ => rfl
  | [_], hwhole | [_, _], hwhole | [_, _, _], hwhole => by simp at hwhole

theorem length_image (words : List Word) : (image words).length = 4 * words.length := by
  induction words with
  | nil => rfl
  | cons word rest ih =>
      have hcons : (image (word :: rest)).length = 4 + (image rest).length := by
        simp [image, bytes]
        omega
      rw [hcons, ih, List.length_cons]
      omega

end ShaderReflection.Word
