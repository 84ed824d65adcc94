import Mathlib.Algebra.GroupWithZero.Nat
import Mathlib.Data.List.Forall2
import ShaderReflection.Proofs.Fallible
import ShaderReflection.Proofs.Word
import ShaderReflection.VertexInput.Layout

/-!
Packing attributes into buffers. Offsets and strides are the exact sums of what the attributes
before them take, and building succeeds only if these sums fit a word.
-/

namespace ShaderReflection

/-- The bytes that a layout takes in a buffer. -/
def Layout.packedSize (layout : Layout) : Nat := layout.baseSize.toNat * layout.baseCount.toNat

/-- Whether a location of an entry point has an input with a layout and a format. -/
def EntryLayout.Feeds (entry : EntryLayout) (location : Word) (layout : Layout)
    (format : VertexFormat) : Prop :=
  ∃ input, entry.inputs[location]? = some input ∧ input.layout = .ok layout ∧
    VertexFormat.ofBase? layout.baseType layout.baseCount = some format

namespace VertexInputLayout

/-- The attributes that locations give when they are packed from byte `start` on, and the byte where
the last one ends. -/
inductive Packed (entry : EntryLayout) (binding : Word) :
    (start : Nat) → List Word → List VertexAttribute → (stop : Nat) → Prop
  | nil {start} : Packed entry binding start [] [] start
  | cons {start location locations layout format offset attributes stop} :
      entry.Feeds location layout format → offset.toNat = start →
        Packed entry binding (start + layout.packedSize) locations attributes stop →
        Packed entry binding start (location :: locations)
          (⟨location, binding, format, offset⟩ :: attributes) stop

/-- Where the attributes of a buffer begin, and where the last one ends. -/
def boundaries (attributes : List VertexAttribute) (stop : Nat) : List Nat :=
  attributes.map (·.offset.toNat) ++ [stop]

variable {entry : EntryLayout} {binding : Word}

section Packed

variable {start stop : Nat} {locations : List Word} {attributes : List VertexAttribute}

theorem Packed.locations_eq (h : Packed entry binding start locations attributes stop) :
    attributes.map (·.location) = locations := by
  induction h with
  | nil => rfl
  | cons _ _ _ ih => rw [List.map_cons, ih]

theorem packed_nil_iff :
    Packed entry binding start [] attributes stop ↔ attributes = [] ∧ stop = start := by
  constructor
  · intro h
    cases h
    exact ⟨rfl, rfl⟩
  · rintro ⟨rfl, rfl⟩
    exact .nil

theorem Packed.le (h : Packed entry binding start locations attributes stop) : start ≤ stop := by
  induction h with
  | nil => exact Nat.le_refl _
  | cons _ _ _ ih => exact Nat.le_trans (Nat.le_add_right _ _) ih

theorem Packed.head?_boundaries (h : Packed entry binding start locations attributes stop) :
    (boundaries attributes stop).head? = some start := by
  cases h with
  | nil => rfl
  | cons _ hoffset _ => exact congrArg some hoffset

/-- An attribute reaches to the boundary after it. -/
theorem Packed.next_boundary (h : Packed entry binding start locations attributes stop)
    {place : Nat} {fed : VertexAttribute} (hfed : attributes[place]? = some fed) :
    ∃ layout, entry.Feeds fed.location layout fed.format ∧ fed.binding = binding ∧
      (boundaries attributes stop)[place + 1]? = some (fed.offset.toNat + layout.packedSize) := by
  induction h generalizing place with
  | nil => cases hfed
  | cons hfeeds hoffset hrest ih =>
      cases place with
      | succ place => exact ih hfed
      | zero =>
          obtain rfl := Option.some.inj hfed
          refine ⟨_, hfeeds, rfl, ?_⟩
          rw [hoffset, ← hrest.head?_boundaries, List.head?_eq_getElem?]
          rfl

theorem Packed.stop_eq (h : Packed entry binding start locations attributes stop)
    {unit : Nat} {count : VertexFormat → Nat}
    (hsize : ∀ {location layout format}, entry.Feeds location layout format →
      layout.packedSize = unit * count format) :
    stop = start + unit * (attributes.map (count ·.format)).sum := by
  induction h with
  | nil => simp
  | cons hfeeds _ _ ih =>
      rw [ih, hsize hfeeds, List.map_cons, List.sum_cons, Nat.mul_add, Nat.add_assoc]

theorem Packed.aligned (h : Packed entry binding start locations attributes stop) {unit : Nat}
    (hsize : ∀ {location layout format}, entry.Feeds location layout format →
      unit ∣ layout.packedSize)
    (hstart : unit ∣ start) : unit ∣ stop ∧ ∀ fed ∈ attributes, unit ∣ fed.offset.toNat := by
  induction h with
  | nil => exact ⟨hstart, List.forall_mem_nil _⟩
  | cons hfeeds hoffset _ ih =>
      obtain ⟨hstop, hrest⟩ := ih (Nat.dvd_add hstart (hsize hfeeds))
      refine ⟨hstop, List.forall_mem_cons.mpr ⟨?_, hrest⟩⟩
      rw [hoffset]
      exact hstart

end Packed

section Packing

variable {packing packing' : Packing}

/-- The byte after a layout that is packed at an offset is given exactly if it fits a word. -/
theorem advance_eq_some_iff {layout : Layout} {offset stop : Word} :
    (Word.mul? layout.baseSize layout.baseCount).bind (Word.add? offset) = some stop ↔
      stop.toNat = offset.toNat + layout.packedSize := by
  constructor
  · intro h
    obtain ⟨size, hsize, hsum⟩ := Option.bind_eq_some_iff.mp h
    rw [Word.add?_eq_some_iff.mp hsum, Word.mul?_eq_some_iff.mp hsize, Layout.packedSize]
  · intro h
    have hstop := stop.toNat_lt_size
    obtain ⟨size, hsize⟩ := Word.exists_toNat_eq (n := layout.packedSize) (by omega)
    refine Option.bind_eq_some_iff.mpr ⟨size, Word.mul?_eq_some_iff.mpr hsize, ?_⟩
    rw [Word.add?_eq_some_iff, h, hsize]

theorem advance_eq_none_iff {layout : Layout} {offset : Word} :
    (Word.mul? layout.baseSize layout.baseCount).bind (Word.add? offset) = none ↔
      UInt32.size ≤ offset.toNat + layout.packedSize := by
  simp only [Option.eq_none_iff_forall_ne_some, ne_eq, advance_eq_some_iff]
  constructor
  · intro h
    by_contra hfits
    obtain ⟨stop, hstop⟩ := Word.exists_toNat_eq (Nat.lt_of_not_le hfits)
    exact h stop hstop
  · intro hover stop hstop
    have := stop.toNat_lt_size
    omega

theorem Packing.add_eq_ok_iff {location : Word} :
    Packing.add entry binding packing location = .ok packing' ↔
      ∃ layout format, entry.Feeds location layout format ∧
        packing'.offset.toNat = packing.offset.toNat + layout.packedSize ∧
        packing'.attributes =
          packing.attributes.push ⟨location, binding, format, packing.offset⟩ := by
  unfold Packing.add
  constructor
  · intro h
    split at h
    next input hinput =>
      obtain ⟨layout, hlayout, h⟩ := bind_eq_ok_iff.mp h
      split at h
      next format hformat =>
        split at h
        next stop hstop =>
          cases h
          exact ⟨layout, format, ⟨input, hinput, mapError_eq_ok_iff.mp hlayout, hformat⟩,
            advance_eq_some_iff.mp hstop, rfl⟩
        next => cases h
      next => cases h
    next => cases h
  · rintro ⟨layout, format, ⟨input, hinput, hlayout, hformat⟩, hoffset, hattributes⟩
    simp only [hinput, hlayout, Except.mapError, ok_bind, hformat,
      advance_eq_some_iff.mpr hoffset]
    rw [← hattributes]
    rfl

/-- Packing a list of locations is exact, and succeeds if every location feeds an attribute and the
last one still ends within a word. -/
theorem foldlM_add_eq_ok_iff {locations : List Word} :
    locations.foldlM (Packing.add entry binding) packing = .ok packing' ↔
      ∃ attributes, Packed entry binding packing.offset.toNat locations attributes
          packing'.offset.toNat ∧
        packing'.attributes = packing.attributes ++ attributes.toArray := by
  induction locations generalizing packing with
  | nil =>
      obtain ⟨offset, packed⟩ := packing
      obtain ⟨offset', packed'⟩ := packing'
      simp only [List.foldlM_nil, packed_nil_iff, UInt32.toNat_inj]
      constructor
      · intro h
        cases h
        exact ⟨[], ⟨rfl, rfl⟩, by simp⟩
      · rintro ⟨_, ⟨rfl, rfl⟩, happended⟩
        obtain rfl : packed' = packed := by simpa using happended
        rfl
  | cons location locations ih =>
      rw [List.foldlM_cons, bind_eq_ok_iff]
      simp only [Packing.add_eq_ok_iff, ih]
      constructor
      · rintro ⟨next, ⟨layout, format, hfeeds, hoffset, hpushed⟩, attributes, hpacked, happended⟩
        rw [hoffset] at hpacked
        refine ⟨⟨location, binding, format, packing.offset⟩ :: attributes,
          .cons hfeeds rfl hpacked, ?_⟩
        rw [happended, hpushed]
        simp
      · rintro ⟨attributes, hpacked, happended⟩
        cases hpacked with
        | cons hfeeds hoffset hrest =>
            have hend := packing'.offset.toNat_lt_size
            obtain ⟨next, hnext⟩ := Word.exists_toNat_eq (Nat.lt_of_le_of_lt hrest.le hend)
            obtain rfl := UInt32.toNat_inj.mp hoffset
            refine ⟨⟨next, _⟩, ⟨_, _, hfeeds, hnext, rfl⟩, _, hnext ▸ hrest, ?_⟩
            rw [happended]
            simp

end Packing

section Buffers

theorem exists_of_forall₂ {α β : Type} {related : α → β → Prop} {items : List α}
    {values : List β} (h : List.Forall₂ related items values) {place : Nat} {item : α}
    (hitem : items[place]? = some item) :
    ∃ value, values[place]? = some value ∧ related item value := by
  obtain ⟨hplace, rfl⟩ := List.getElem?_eq_some_iff.mp hitem
  have hvalue : place < values.length := h.length_eq ▸ hplace
  exact ⟨values[place], List.getElem?_eq_getElem hvalue, h.get hplace hvalue⟩

theorem ofBuffer_eq_ok_iff {locations : List Word} {declared : VertexBinding}
    {attributes : List VertexAttribute} :
    ofBuffer entry binding locations = .ok (declared, attributes) ↔
      declared = ⟨binding, declared.stride, .perVertex⟩ ∧
        Packed entry binding 0 locations attributes declared.stride.toNat := by
  unfold ofBuffer
  simp only [bind_eq_ok_iff, foldlM_add_eq_ok_iff]
  constructor
  · rintro ⟨packing, ⟨packed, hpacked, happended⟩, h⟩
    obtain ⟨rfl, rfl⟩ : (⟨binding, packing.offset, .perVertex⟩ : VertexBinding) = declared ∧
        packing.attributes.toList = attributes := by simpa [pure, Except.pure] using h
    refine ⟨rfl, ?_⟩
    rw [happended]
    simpa using hpacked
  · rintro ⟨hdeclared, hpacked⟩
    refine ⟨⟨declared.stride, attributes.toArray⟩, ⟨attributes, hpacked, by simp⟩, ?_⟩
    rw [hdeclared]
    rfl

theorem build_eq_ok_iff {request : VertexInputRequest} {result : VertexInputLayout} :
    build request entry = .ok result ↔
      ∃ buffers : List (VertexBinding × List VertexAttribute),
        List.Forall₂ (fun requested built =>
          ofBuffer entry requested.2.toUInt32 requested.1 = .ok built)
          request.buffers.zipIdx buffers ∧
        result = ⟨buffers.map (·.1), buffers.flatMap (·.2)⟩ := by
  unfold build
  rw [bind_eq_ok_iff]
  simp only [mapM_eq_ok_iff]
  constructor
  · rintro ⟨buffers, hbuffers, h⟩
    cases h
    exact ⟨buffers, hbuffers, rfl⟩
  · rintro ⟨buffers, hbuffers, rfl⟩
    exact ⟨buffers, hbuffers, rfl⟩

/-- Whether each requested buffer has its binding and its own stretch of the attributes, which are
packed from the first byte up to the stride. -/
def IsPacked (request : VertexInputRequest) (entry : EntryLayout) (result : VertexInputLayout) :
    Prop :=
  ∃ blocks : List (List VertexAttribute), result.attributes = blocks.flatten ∧
    blocks.length = request.buffers.length ∧ result.bindings.length = request.buffers.length ∧
    ∀ (place : Nat) (locations : List Word), request.buffers[place]? = some locations →
      ∃ (declared : VertexBinding) (attributes : List VertexAttribute),
        result.bindings[place]? = some declared ∧ blocks[place]? = some attributes ∧
        declared = ⟨place.toUInt32, declared.stride, .perVertex⟩ ∧
        Packed entry place.toUInt32 0 locations attributes declared.stride.toNat

theorem isPacked_of_build {request : VertexInputRequest} {result : VertexInputLayout}
    (hbuild : build request entry = .ok result) : IsPacked request entry result := by
  obtain ⟨buffers, hbuffers, rfl⟩ := build_eq_ok_iff.mp hbuild
  have hlength : buffers.length = request.buffers.length := by
    rw [← hbuffers.length_eq, List.length_zipIdx]
  refine ⟨buffers.map (·.2), ?_, ?_, ?_, ?_⟩
  · rw [List.flatMap_def]
  · rw [List.length_map, hlength]
  · rw [List.length_map, hlength]
  · intro place locations hlocations
    have hplace : request.buffers.zipIdx[place]? = some (locations, place) := by
      rw [List.getElem?_zipIdx, hlocations, Option.map_some, Nat.zero_add]
    obtain ⟨⟨declared, attributes⟩, hbuilt, hbuffer⟩ := exists_of_forall₂ hbuffers hplace
    obtain ⟨hdeclared, hpacked⟩ := ofBuffer_eq_ok_iff.mp hbuffer
    refine ⟨declared, attributes, ?_, ?_, hdeclared, hpacked⟩
    · rw [List.getElem?_map, hbuilt, Option.map_some]
    · rw [List.getElem?_map, hbuilt, Option.map_some]

end Buffers

end VertexInputLayout

end ShaderReflection
