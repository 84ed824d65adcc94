import Mathlib.Data.List.Basic
import ShaderReflection.Proofs.VertexInput.Packing

/-!
When a vertex-input state can be built, what it then is, and which error is reported otherwise. A
buffer can be packed if each of its locations has an input with a format and all of them together
fit a word; the first location that does not fit after those before it decides the error.
-/

namespace ShaderReflection

namespace EntryLayout

variable (entry : EntryLayout)

/-- The bytes that the input at a location takes in a buffer. A location without a layout takes
none. -/
def bytesAt (location : Word) : Nat :=
  match entry.inputs[location]? with
  | some { layout := .ok layout, .. } => layout.packedSize
  | _ => 0

/-- The bytes that the inputs at some locations take together. -/
def bytesOf (locations : List Word) : Nat := (locations.map entry.bytesAt).sum

/-- Whether a buffer can be fed from some locations: every location has an input with a layout and a
format, and the vertex size fits a word. -/
structure Packs (locations : List Word) : Prop where
  feeds : ∀ location ∈ locations, ∃ layout format, entry.Feeds location layout format
  fits : entry.bytesOf locations < UInt32.size

/-- Whether a location of a buffer cannot be packed after the locations `done`, for the reason that
an error gives. -/
def Offends (buffer : Nat) (done : List Word) (location : Word) : VertexInputError → Prop
  | .missingLocation name wanted =>
      name = entry.name ∧ wanted = location ∧ entry.inputs[location]? = none
  | .layout wanted cause =>
      wanted = location ∧
        ∃ input, entry.inputs[location]? = some input ∧ input.layout = .error cause
  | .unsupportedFormat wanted baseType count =>
      wanted = location ∧
        ∃ input layout, entry.inputs[location]? = some input ∧ input.layout = .ok layout ∧
          layout.baseType = baseType ∧ layout.baseCount = count ∧
          VertexFormat.ofBase? baseType count = none
  | .strideOverflow binding =>
      binding.toNat = buffer ∧
        ∃ layout format, entry.Feeds location layout format ∧
          UInt32.size ≤ entry.bytesOf done + layout.packedSize
  | .unknownArgument _ | .invalidLocation .. => False

/-- Whether an error belongs to the first location that cannot be packed: all buffers before it can,
and so can the locations before it in its own buffer. -/
def FirstOffence (buffers : List (List Word)) (error : VertexInputError) : Prop :=
  ∃ before locations after done location rest,
    buffers = before ++ locations :: after ∧ (∀ earlier ∈ before, entry.Packs earlier) ∧
    locations = done ++ location :: rest ∧ entry.Packs done ∧
    entry.Offends before.length done location error

variable {entry} {location : Word} {layout : Layout} {format : VertexFormat}

theorem Feeds.bytesAt_eq (h : entry.Feeds location layout format) :
    entry.bytesAt location = layout.packedSize := by
  obtain ⟨⟨_, _, _, outcome⟩, hinput, hlayout, -⟩ := h
  change outcome = .ok layout at hlayout
  rw [bytesAt, hinput, hlayout]

theorem bytesOf_cons (location : Word) (locations : List Word) :
    entry.bytesOf (location :: locations) = entry.bytesAt location + entry.bytesOf locations := by
  rw [bytesOf, List.map_cons, List.sum_cons, bytesOf]

end EntryLayout

namespace VertexInputLayout

open EntryLayout

variable {entry : EntryLayout} {binding : Word}

section Packed

variable {start stop : Nat} {locations : List Word} {attributes : List VertexAttribute}

theorem Packed.stop_eq_bytesOf (h : Packed entry binding start locations attributes stop) :
    stop = start + entry.bytesOf locations := by
  induction h with
  | nil => rfl
  | cons hfeeds _ _ ih => rw [ih, bytesOf_cons, hfeeds.bytesAt_eq, Nat.add_assoc]

theorem Packed.feeds (h : Packed entry binding start locations attributes stop) :
    ∀ location ∈ locations, ∃ layout format, entry.Feeds location layout format := by
  induction h with
  | nil => exact List.forall_mem_nil _
  | cons hfeeds _ _ ih => exact List.forall_mem_cons.mpr ⟨⟨_, _, hfeeds⟩, ih⟩

theorem Packed.described (h : Packed entry binding start locations attributes stop) :
    ∀ fed ∈ attributes, fed.binding = binding ∧
      ∃ layout, entry.Feeds fed.location layout fed.format := by
  induction h with
  | nil => exact List.forall_mem_nil _
  | cons hfeeds _ _ ih => exact List.forall_mem_cons.mpr ⟨⟨rfl, _, hfeeds⟩, ih⟩

theorem Packed.offset_eq (h : Packed entry binding start locations attributes stop) {place : Nat}
    {fed : VertexAttribute} (hfed : attributes[place]? = some fed) :
    fed.offset.toNat = start + entry.bytesOf (locations.take place) := by
  induction h generalizing place with
  | nil => cases hfed
  | cons hfeeds hoffset _ ih =>
      cases place with
      | zero =>
          obtain rfl := Option.some.inj hfed
          exact hoffset
      | succ place =>
          rw [ih hfed, List.take_succ_cons, bytesOf_cons, hfeeds.bytesAt_eq, Nat.add_assoc]

theorem Packed.start_le (h : Packed entry binding start locations attributes stop) :
    ∀ fed ∈ attributes, start ≤ fed.offset.toNat := by
  intro fed hfed
  obtain ⟨place, hplace⟩ := List.mem_iff_getElem?.mp hfed
  rw [h.offset_eq hplace]
  exact Nat.le_add_right _ _

/-- An attribute ends before all those after it begin. -/
theorem Packed.disjoint (h : Packed entry binding start locations attributes stop) :
    attributes.Pairwise fun fed later =>
      fed.offset.toNat + entry.bytesAt fed.location ≤ later.offset.toNat := by
  induction h with
  | nil => exact .nil
  | cons hfeeds hoffset hrest ih =>
      refine .cons ?_ ih
      intro later hlater
      rw [hoffset, hfeeds.bytesAt_eq]
      exact hrest.start_le later hlater

/-- Locations that feed attributes can be packed as long as the last one ends within a word. -/
theorem exists_packed (hfeeds : ∀ location ∈ locations, ∃ layout format,
      entry.Feeds location layout format)
    (hfits : start + entry.bytesOf locations < UInt32.size) :
    ∃ attributes, Packed entry binding start locations attributes
      (start + entry.bytesOf locations) := by
  induction locations generalizing start with
  | nil => exact ⟨[], .nil⟩
  | cons location locations ih =>
      rw [List.forall_mem_cons] at hfeeds
      obtain ⟨⟨layout, format, hfirst⟩, hrest⟩ := hfeeds
      rw [bytesOf_cons, hfirst.bytesAt_eq, ← Nat.add_assoc] at hfits ⊢
      obtain ⟨attributes, hpacked⟩ := ih hrest hfits
      obtain ⟨offset, hoffset⟩ := Word.exists_toNat_eq (n := start) (by omega)
      exact ⟨_, .cons hfirst hoffset hpacked⟩

end Packed

section Packing

variable {packing : Packing} {buffer : Nat} {done locations : List Word} {location : Word}
  {error : VertexInputError}

theorem packs_iff (binding : Word) :
    entry.Packs locations ↔
      ∃ packing, locations.foldlM (Packing.add entry binding) {} = .ok packing := by
  simp only [foldlM_add_eq_ok_iff]
  constructor
  · rintro ⟨hfeeds, hfits⟩
    obtain ⟨stop, hstop⟩ := Word.exists_toNat_eq hfits
    obtain ⟨attributes, hpacked⟩ : ∃ attributes, Packed entry binding 0 locations attributes
        (0 + entry.bytesOf locations) := exists_packed hfeeds (by rwa [Nat.zero_add])
    rw [Nat.zero_add, ← hstop] at hpacked
    exact ⟨⟨stop, attributes.toArray⟩, attributes, hpacked, by simp⟩
  · rintro ⟨packing, attributes, hpacked, -⟩
    have hstop : packing.offset.toNat = 0 + entry.bytesOf locations := hpacked.stop_eq_bytesOf
    refine ⟨hpacked.feeds, ?_⟩
    rw [← Nat.zero_add (entry.bytesOf locations), ← hstop]
    exact packing.offset.toNat_lt_size

/-- A location is refused after others exactly if it cannot be packed there. -/
theorem Packing.add_eq_error_iff (hbinding : binding.toNat = buffer)
    (hdone : packing.offset.toNat = entry.bytesOf done) :
    Packing.add entry binding packing location = .error error ↔
      entry.Offends buffer done location error := by
  constructor
  · intro h
    unfold Packing.add at h
    cases hinput : entry.inputs[location]? with
    | none =>
        rw [hinput] at h
        cases h
        exact ⟨rfl, rfl, hinput⟩
    | some input =>
        rw [hinput] at h
        cases hlayout : input.layout with
        | error cause =>
            simp only [hlayout] at h
            cases h
            exact ⟨rfl, input, hinput, hlayout⟩
        | ok layout =>
            simp only [hlayout, Except.mapError, ok_bind] at h
            cases hformat : VertexFormat.ofBase? layout.baseType layout.baseCount with
            | none =>
                rw [hformat] at h
                cases h
                exact ⟨rfl, input, layout, hinput, hlayout, rfl, rfl, hformat⟩
            | some format =>
                cases hstop : (Word.mul? layout.baseSize layout.baseCount).bind
                    (Word.add? packing.offset) with
                | some stop =>
                    rw [hformat, hstop] at h
                    cases h
                | none =>
                    rw [hformat, hstop] at h
                    cases h
                    rw [advance_eq_none_iff, hdone] at hstop
                    exact ⟨hbinding, layout, format, ⟨input, hinput, hlayout, hformat⟩, hstop⟩
  · intro h
    unfold Packing.add
    cases error with
    | missingLocation name wanted =>
        obtain ⟨rfl, rfl, hmissing⟩ := h
        rw [hmissing]
        rfl
    | layout wanted cause =>
        obtain ⟨rfl, input, hinput, hcause⟩ := h
        simp only [hinput, hcause]
        rfl
    | unsupportedFormat wanted baseType count =>
        obtain ⟨rfl, input, layout, hinput, hlayout, rfl, rfl, hformat⟩ := h
        simp only [hinput, hlayout, Except.mapError, ok_bind, hformat]
        rfl
    | strideOverflow other =>
        obtain ⟨hother, layout, format, ⟨input, hinput, hlayout, hformat⟩, hover⟩ := h
        obtain rfl := UInt32.toNat_inj.mp (hother.trans hbinding.symm)
        rw [← hdone, ← advance_eq_none_iff] at hover
        simp only [hinput, hlayout, Except.mapError, ok_bind, hformat, hover]
        rfl
    | unknownArgument | invalidLocation => exact h.elim

/-- Packing a buffer fails at the first location that cannot be packed after those before it. -/
theorem ofBuffer_eq_error_iff (hbinding : binding.toNat = buffer) :
    ofBuffer entry binding locations = .error error ↔
      ∃ done location rest, locations = done ++ location :: rest ∧ entry.Packs done ∧
        entry.Offends buffer done location error := by
  have hfails : ofBuffer entry binding locations = .error error ↔
      locations.foldlM (Packing.add entry binding) {} = .error error := by
    unfold ofBuffer
    rw [bind_eq_error_iff]
    exact or_iff_left (by simp [pure, Except.pure])
  rw [hfails, foldlM_eq_error_iff]
  have hoffset : ∀ {done : List Word} {packing : Packing},
      done.foldlM (Packing.add entry binding) {} = .ok packing →
        packing.offset.toNat = entry.bytesOf done := by
    intro done packing hpacking
    obtain ⟨attributes, hpacked, -⟩ := foldlM_add_eq_ok_iff.mp hpacking
    exact hpacked.stop_eq_bytesOf.trans (Nat.zero_add _)
  constructor
  · rintro ⟨done, location, rest, packing, hlocations, hpacking, hfailing⟩
    exact ⟨done, location, rest, hlocations, (packs_iff binding).mpr ⟨packing, hpacking⟩,
      (Packing.add_eq_error_iff hbinding (hoffset hpacking)).mp hfailing⟩
  · rintro ⟨done, location, rest, hlocations, hpacks, hoffends⟩
    obtain ⟨packing, hpacking⟩ := (packs_iff binding).mp hpacks
    exact ⟨done, location, rest, packing, hlocations, hpacking,
      (Packing.add_eq_error_iff hbinding (hoffset hpacking)).mpr hoffends⟩

theorem ofBuffer_succeeds_iff :
    (∃ built, ofBuffer entry binding locations = .ok built) ↔ entry.Packs locations := by
  rw [packs_iff binding]
  unfold ofBuffer
  constructor
  · rintro ⟨built, h⟩
    obtain ⟨packing, hpacking, -⟩ := bind_eq_ok_iff.mp h
    exact ⟨packing, hpacking⟩
  · rintro ⟨packing, hpacking⟩
    rw [hpacking, ok_bind]
    exact ⟨_, rfl⟩

end Packing

section Buffers

variable {request : VertexInputRequest} {result : VertexInputLayout} {error : VertexInputError}

/-- Numbering buffers in order, the first one that fails follows those that succeed. -/
theorem failsFirst_zipIdx_iff {α β ε : Type} {run : α × Nat → Except ε β} {items : List α}
    {error : ε} :
    FailsFirst run items.zipIdx error ↔
      ∃ before item after, items = before ++ item :: after ∧
        (∀ earlier ∈ before.zipIdx, ∃ value, run earlier = .ok value) ∧
        run (item, before.length) = .error error := by
  constructor
  · rintro ⟨before, ⟨item, index⟩, after, hitems, hbefore, hfailing⟩
    have hsplit : items = before.map Prod.fst ++ item :: after.map Prod.fst := by
      have hfirst := congrArg (List.map Prod.fst) hitems
      rwa [List.zipIdx_map_fst, List.map_append, List.map_cons] at hfirst
    rw [hsplit, List.zipIdx_append, List.zipIdx_cons, Nat.zero_add] at hitems
    obtain ⟨hnumbered, hrest⟩ := List.append_inj hitems (by simp)
    have hindex : (before.map Prod.fst).length = index :=
      congrArg Prod.snd (List.cons.inj hrest).1
    refine ⟨before.map Prod.fst, item, after.map Prod.fst, hsplit, ?_, ?_⟩
    · rwa [hnumbered]
    · rwa [hindex]
  · rintro ⟨before, item, after, rfl, hbefore, hfailing⟩
    refine ⟨before.zipIdx, (item, before.length), after.zipIdx (before.length + 1), ?_, hbefore,
      hfailing⟩
    rw [List.zipIdx_append, List.zipIdx_cons, Nat.zero_add]

theorem build_fails_iff :
    build request entry = .error error ↔
      FailsFirst (fun (locations, index) => ofBuffer entry index.toUInt32 locations)
        request.buffers.zipIdx error := by
  unfold build
  rw [bind_eq_error_iff, mapM_eq_error_iff]
  exact or_iff_left (by simp [pure, Except.pure])

theorem build_succeeds_iff :
    (∃ result, build request entry = .ok result) ↔
      ∀ locations ∈ request.buffers, entry.Packs locations := by
  constructor
  · rintro ⟨result, hbuild⟩ locations hlocations
    obtain ⟨place, hplace⟩ := List.mem_iff_getElem?.mp hlocations
    obtain ⟨_, -, -, -, hbuffers⟩ := isPacked_of_build hbuild
    obtain ⟨declared, attributes, -, -, -, hpacked⟩ := hbuffers place locations hplace
    refine ⟨hpacked.feeds, ?_⟩
    rw [← Nat.zero_add (entry.bytesOf locations), ← hpacked.stop_eq_bytesOf]
    exact declared.stride.toNat_lt_size
  · intro hpacks
    cases hbuild : build request entry with
    | ok result => exact ⟨result, rfl⟩
    | error error =>
        obtain ⟨before, ⟨locations, index⟩, after, hbuffers, -, hfailing⟩ :=
          build_fails_iff.mp hbuild
        have hlocations : locations ∈ request.buffers := by
          apply List.fst_mem_of_mem_zipIdx (x := (locations, index))
          rw [hbuffers]
          exact List.mem_append_right _ (List.mem_cons_self ..)
        obtain ⟨built, hbuilt⟩ := ofBuffer_succeeds_iff.mpr (hpacks locations hlocations)
        cases hbuilt.symm.trans hfailing

/-- Building fails at the first location that cannot be packed. -/
theorem build_eq_error_iff (hfew : request.buffers.length < UInt32.size) :
    build request entry = .error error ↔ entry.FirstOffence request.buffers error := by
  have hnumber : ∀ {before after : List (List Word)} {locations : List Word},
      request.buffers = before ++ locations :: after →
        before.length.toUInt32.toNat = before.length := by
    intro before after locations hbuffers
    apply UInt32.toNat_ofNat_of_lt
    rw [hbuffers, List.length_append, List.length_cons] at hfew
    omega
  have hpacks : ∀ before : List (List Word),
      (∀ earlier ∈ before.zipIdx, ∃ built,
        ofBuffer entry earlier.2.toUInt32 earlier.1 = .ok built) ↔
      ∀ earlier ∈ before, entry.Packs earlier := by
    intro before
    simp only [ofBuffer_succeeds_iff]
    constructor
    · intro h earlier hearlier
      rw [← List.zipIdx_map_fst 0 before] at hearlier
      obtain ⟨numbered, hnumbered, rfl⟩ := List.mem_map.mp hearlier
      exact h numbered hnumbered
    · intro h numbered hnumbered
      exact h numbered.1 (List.fst_mem_of_mem_zipIdx hnumbered)
  rw [build_fails_iff, failsFirst_zipIdx_iff]
  simp only [hpacks]
  constructor
  · rintro ⟨before, locations, after, hbuffers, hbefore, hfailing⟩
    obtain ⟨done, location, rest, hlocations, hdone, hoffends⟩ :=
      (ofBuffer_eq_error_iff (hnumber hbuffers)).mp hfailing
    exact ⟨before, locations, after, done, location, rest, hbuffers, hbefore, hlocations, hdone,
      hoffends⟩
  · rintro ⟨before, locations, after, done, location, rest, hbuffers, hbefore, hlocations, hdone,
      hoffends⟩
    exact ⟨before, locations, after, hbuffers, hbefore,
      (ofBuffer_eq_error_iff (hnumber hbuffers)).mpr
        ⟨done, location, rest, hlocations, hdone, hoffends⟩⟩

/-- A requested buffer as it is built: its attributes are its locations, in order, each after the
exact sum of the bytes before it, and the stride is the sum of all of them. -/
structure BufferExact (entry : EntryLayout) (place : Nat) (locations : List Word)
    (declared : VertexBinding) (attributes : List VertexAttribute) : Prop where
  binding : declared.binding.toNat = place
  rate : declared.rate = .perVertex
  stride : declared.stride.toNat = entry.bytesOf locations
  requested : attributes.map (·.location) = locations
  described : ∀ fed ∈ attributes, fed.binding = declared.binding ∧
    ∃ layout, entry.Feeds fed.location layout fed.format
  offsets : ∀ (place : Nat) (fed : VertexAttribute), attributes[place]? = some fed →
    fed.offset.toNat = entry.bytesOf (locations.take place)
  contiguous : ∀ (place : Nat) (fed : VertexAttribute), attributes[place]? = some fed →
    (boundaries attributes declared.stride.toNat)[place + 1]? =
      some (fed.offset.toNat + entry.bytesAt fed.location)
  disjoint : attributes.Pairwise fun fed later =>
    fed.offset.toNat + entry.bytesAt fed.location ≤ later.offset.toNat

theorem Packed.bufferExact {place : Nat} {locations : List Word} {declared : VertexBinding}
    {attributes : List VertexAttribute} (hplace : place < UInt32.size)
    (hdeclared : declared = ⟨place.toUInt32, declared.stride, .perVertex⟩)
    (h : Packed entry place.toUInt32 0 locations attributes declared.stride.toNat) :
    BufferExact entry place locations declared attributes where
  binding := by
    rw [hdeclared]
    exact UInt32.toNat_ofNat_of_lt hplace
  rate := by rw [hdeclared]
  stride := h.stop_eq_bytesOf.trans (Nat.zero_add _)
  requested := h.locations_eq
  described := by
    rw [hdeclared]
    exact h.described
  offsets place fed hfed := (h.offset_eq hfed).trans (Nat.zero_add _)
  contiguous place fed hfed := by
    obtain ⟨layout, hfeeds, -, hnext⟩ := h.next_boundary hfed
    rw [hnext, hfeeds.bytesAt_eq]
  disjoint := h.disjoint

end Buffers

/-- A request is met exactly if each of its buffers can be packed. What is built has a binding for
each buffer, empty ones too, and the attributes of all buffers one after the other, with exact
offsets and strides. Otherwise the error is that of the first location that cannot be packed. -/
theorem build_exact {request : VertexInputRequest} (entry : EntryLayout)
    (hfew : request.buffers.length < UInt32.size) :
    ((∃ result, build request entry = .ok result) ↔
      ∀ locations ∈ request.buffers, entry.Packs locations) ∧
    (∀ result, build request entry = .ok result →
      ∃ blocks : List (List VertexAttribute), result.attributes = blocks.flatten ∧
        blocks.length = request.buffers.length ∧
        result.bindings.length = request.buffers.length ∧
        ∀ (place : Nat) (locations : List Word), request.buffers[place]? = some locations →
          ∃ (declared : VertexBinding) (attributes : List VertexAttribute),
            result.bindings[place]? = some declared ∧ blocks[place]? = some attributes ∧
            BufferExact entry place locations declared attributes) ∧
    ∀ error, build request entry = .error error ↔ entry.FirstOffence request.buffers error := by
  refine ⟨build_succeeds_iff, ?_, fun error => build_eq_error_iff hfew⟩
  intro result hbuild
  obtain ⟨blocks, hattributes, hblocks, hbindings, hbuffers⟩ := isPacked_of_build hbuild
  refine ⟨blocks, hattributes, hblocks, hbindings, ?_⟩
  intro place locations hlocations
  obtain ⟨declared, attributes, hdeclared, hblock, heq, hpacked⟩ :=
    hbuffers place locations hlocations
  have hplace := (List.getElem?_eq_some_iff.mp hlocations).1
  exact ⟨declared, attributes, hdeclared, hblock,
    hpacked.bufferExact (Nat.lt_trans hplace hfew) heq⟩

/-- An input that takes half of what a word counts. A buffer may hold it once, beside a buffer
without attributes. When it is asked for twice in one buffer, the sum does not fit at the second. -/
theorem build_exact_half_a_word :
    let half : Layout := ⟨.scalar, "Float32", 4, 0x80000000, "Float32", 1, none, none⟩
    let inputs : WordMap LocatedInput := (∅ : WordMap LocatedInput).insert 3 ⟨3, none, 20, .ok half⟩
    let entry : EntryLayout := ⟨"main", .vertex, inputs⟩
    entry.Packs [3] ∧ entry.FirstOffence [[3], [], [3, 3]] (.strideOverflow 2) ∧
      ∃ result blocks, build ⟨[[3], []]⟩ entry = .ok result ∧
        result.bindings.map (·.stride) = [0x80000000, 0] ∧
        result.attributes = List.flatten blocks ∧
        ∃ declared attributes, result.bindings[0]? = some declared ∧ blocks[0]? = some attributes ∧
          BufferExact entry 0 [3] declared attributes := by
  intro half inputs entry
  have hstrides : (build ⟨[[3], []]⟩ entry).toOption.map (·.bindings.map (·.stride)) =
      some [0x80000000, 0] := by decide +kernel
  have hover : build ⟨[[3], [], [3, 3]]⟩ entry = .error (.strideOverflow 2) := by decide +kernel
  obtain ⟨result, hresult, hbindings⟩ := Option.map_eq_some_iff.mp hstrides
  have hbuild := eq_ok_of_toOption hresult
  obtain ⟨hsucceeds, hexact, -⟩ := @build_exact ⟨[[3], []]⟩ entry (by decide)
  obtain ⟨-, -, hfails⟩ := @build_exact ⟨[[3], [], [3, 3]]⟩ entry (by decide)
  obtain ⟨blocks, hattributes, -, -, hbuffers⟩ := hexact result hbuild
  exact ⟨hsucceeds.mp ⟨result, hbuild⟩ [3] (List.mem_cons_self ..), (hfails _).mp hover, result,
    blocks, hbuild, hbindings, hattributes, hbuffers 0 [3] rfl⟩

end VertexInputLayout

end ShaderReflection
