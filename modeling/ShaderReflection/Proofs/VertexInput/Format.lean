import ShaderReflection.Assembly
import ShaderReflection.NameTable.Core
import ShaderReflection.Proofs.Interface
import ShaderReflection.Proofs.Layout.Composition
import ShaderReflection.Proofs.VertexInput.Packing
import ShaderReflection.ShaderModule.Parse
import Std.Data.String.ToNat

/-!
The inputs that have a vertex format. A format is looked up by the name of an element type, and the
name of no other type passes for that of a 32-bit number, so an attribute takes four bytes for each
channel of its format.
-/

namespace ShaderReflection

/-- The kind of component that a number of 32 bits is. -/
def TypeKind.component? : TypeKind → Option VertexFormat.Component
  | float width => if width = 32 then some .float else none
  | int width signed => if width = 32 then some (if signed then .int else .uint) else none
  | _ => none

namespace VertexFormat.Component

/-- What the names of numbers with a component begin with, whatever their width. -/
def stem : Component → String
  | float => "Float"
  | int => "Int"
  | uint => "UInt"

theorem ofName?_eq_some_iff {name : String} {component : Component} :
    ofName? name = some component ↔ name = component.stem ++ "32" := by
  unfold ofName?
  constructor
  · intro h
    split_ifs at h with hname hname hname <;> cases h <;> exact hname
  · rintro rfl
    cases component <;> decide

theorem ofName?_eq_none_iff {name : String} :
    ofName? name = none ↔ ∀ component : Component, name ≠ component.stem ++ "32" := by
  rw [Option.eq_none_iff_forall_ne_some]
  simp only [ne_eq, ofName?_eq_some_iff]

/-- A name that begins with a small letter is no number's, whatever follows. -/
theorem ofName?_append_of_small {start : String} {first : Char} {others : List Char}
    (hstart : start.toList = first :: others) (hsmall : first ∉ ['F', 'I', 'U']) (rest : String) :
    ofName? (start ++ rest) = none := by
  rw [ofName?_eq_none_iff]
  intro component hname
  have hchars := congrArg String.toList hname
  rw [String.toList_append, hstart] at hchars
  apply hsmall
  cases component <;>
    · simp [stem] at hchars
      simp [hchars.1]

/-- The width that a number's name shows tells numbers of 32 bits from all others. -/
theorem ofName?_numbered (component : Component) (width : Word) :
    ofName? (component.stem ++ Nat.repr width.toNat) =
      if width = 32 then some component else none := by
  split_ifs with hwidth
  · rw [ofName?_eq_some_iff, hwidth]
    rfl
  · rw [ofName?_eq_none_iff]
    intro other hname
    have hsame : component = other := by
      have hchars := congrArg String.toList hname
      cases component <;> cases other <;> simp [stem] at hchars ⊢
    rw [hsame, String.append_right_inj] at hname
    exact hwidth (UInt32.toNat_inj.mp (Nat.repr_inj.mp hname))

/-- A type's name passes for that of a 32-bit number only if the type is one. -/
theorem ofName?_displayName (kind : TypeKind) : ofName? kind.displayName = kind.component? := by
  cases kind with
  | float width => exact ofName?_numbered .float width
  | int width signed =>
      cases signed
      · exact ofName?_numbered .uint width
      · exact ofName?_numbered .int width
  | _ => rfl

end VertexFormat.Component

namespace ShaderModule

variable (m : ShaderModule)

/-- The kind of component of a type that is a 32-bit number. -/
def number? (id : Ident) : Option VertexFormat.Component := (m.kind? id).bind (·.component?)

/-- The kind of component that a 32-bit number, or a vector or array of such numbers, has, and how
many of them there are. The length of an array is looked up. -/
def components? (id : Ident) : Option (VertexFormat.Component × Nat) :=
  match m.kind? id with
  | some (.vector element count) => (m.number? element).map (·, count.toNat)
  | some (.array element length) => (m.number? element).map (·, (m.arrayLength length).toNat)
  | _ => (m.number? id).map (·, 1)

variable {m} {id : Ident} {layout : Layout}

open VertexFormat (Component)

theorem number?_of_kind {kind : TypeKind} (hkind : m.kind? id = some kind) :
    m.number? id = kind.component? := by
  rw [number?, hkind, Option.bind_some]

theorem exists_name_of_image (type : ImageType) :
    ∃ suffix, (Layout.ofImage type).name = "image" ++ suffix := by
  cases hdim : type.dim <;> simp only [Layout.ofImage, hdim] <;> exact ⟨_, rfl⟩

theorem ofName?_baseType_of_image (type : ImageType) :
    Component.ofName? (Layout.ofImage type).baseType = none := by
  cases hdim : type.dim <;> simp only [Layout.ofImage, hdim] <;> rfl

/-- The name of a layout is that of a 32-bit number only if the type is one. -/
theorem ofName?_name_of_hasLayout (h : m.HasLayout id layout) :
    Component.ofName? layout.name = m.number? id := by
  cases h with
  | leaf hleaf =>
      rcases leafLayout_cases hleaf with ⟨hkind, rfl⟩ | ⟨type, hkind, rfl⟩ | ⟨hkind, rfl⟩ |
        ⟨scalar, size, hkind, -, rfl⟩
      · rw [number?, hkind]
        rfl
      · obtain ⟨suffix, hname⟩ := exists_name_of_image type
        rw [number?_of_kind hkind, hname]
        exact Component.ofName?_append_of_small rfl (by decide) suffix
      · rw [number?_of_kind hkind]
        rfl
      · rw [number?_of_kind hkind]
        exact Component.ofName?_displayName scalar
  | repeated hrepetition _ _ =>
      rcases kind_of_repetition hrepetition with ⟨base, count, hkind, rfl⟩ |
        ⟨base, length, hkind, rfl⟩ | ⟨base, count, hkind, rfl⟩
      all_goals
        rw [number?_of_kind hkind]
        rfl
  | sampledImage hkind _ =>
      rw [number?_of_kind hkind]
      exact Component.ofName?_append_of_small rfl (by decide) _
  | struct hkind _ _ _ =>
      rw [number?_of_kind hkind]
      rfl

/-- A layout names the components of its type as its base, and no other type's layout has a base
that passes for a 32-bit number. -/
theorem baseType_of_hasLayout (h : m.HasLayout id layout) :
    (Component.ofName? layout.baseType).map (·, layout.baseCount.toNat) = m.components? id := by
  unfold components?
  cases h with
  | leaf hleaf =>
      rcases leafLayout_cases hleaf with ⟨hkind, rfl⟩ | ⟨type, hkind, rfl⟩ | ⟨hkind, rfl⟩ |
        ⟨scalar, size, hkind, hsize, rfl⟩
      · simp only [hkind, number?]
        rfl
      · simp only [hkind, number?_of_kind hkind, ofName?_baseType_of_image]
        rfl
      · simp only [hkind, number?_of_kind hkind]
        rfl
      · change (Component.ofName? scalar.displayName).map (·, 1) = _
        rw [Component.ofName?_displayName, ← number?_of_kind hkind]
        split
        next hvector =>
          cases hkind.symm.trans hvector
          cases hsize
        next harray =>
          cases hkind.symm.trans harray
          cases hsize
        next => rfl
  | repeated hrepetition hbase _ =>
      rcases kind_of_repetition hrepetition with ⟨base, count, hkind, rfl⟩ |
        ⟨base, length, hkind, rfl⟩ | ⟨base, count, hkind, rfl⟩
      · simp only [hkind, ← ofName?_name_of_hasLayout hbase]
        rfl
      · simp only [hkind, ← ofName?_name_of_hasLayout hbase]
        rfl
      · simp only [hkind, number?_of_kind hkind]
        rfl
  | sampledImage hkind _ =>
      simp only [hkind, number?_of_kind hkind]
      rfl
  | struct hkind _ _ _ =>
      simp only [hkind, number?_of_kind hkind]
      rfl

theorem hasLayout_of_number {component : Component} (h : m.HasLayout id layout)
    (hnumber : m.number? id = some component) :
    layout.baseSize = 4 ∧ layout.baseCount = 1 ∧ layout.size = 4 := by
  obtain ⟨kind, hkind, hcomponent⟩ := Option.bind_eq_some_iff.mp hnumber
  have hleaf : leafLayout? (m.kind? id) = some (.scalar kind.displayName 4) := by
    rw [hkind]
    cases kind <;> first | rfl | cases hcomponent
  rw [(hasLayout_leaf_iff hleaf).mp h]
  exact ⟨rfl, rfl, rfl⟩

/-- A type takes four bytes for each of its components. -/
theorem packedSize_of_components {component : Component} {channels : Nat}
    (h : m.HasLayout id layout) (hcomponents : m.components? id = some (component, channels)) :
    layout.packedSize = 4 * channels := by
  have hrepeated : ∀ repetition : Repetition, m.repetition? id = some repetition →
      m.number? repetition.base = some component → repetition.count.toNat = channels →
      layout.packedSize = 4 * channels := by
    intro repetition hrepetition hnumber hcount
    obtain ⟨element, size, hbase, -, rfl⟩ := (hasLayout_repetition_iff hrepetition).mp h
    obtain ⟨-, -, hsize⟩ := hasLayout_of_number hbase hnumber
    rw [Layout.packedSize, ← hcount]
    exact congrArg (·.toNat * repetition.count.toNat) hsize
  unfold components? at hcomponents
  split at hcomponents
  next element count hkind =>
    obtain ⟨_, hnumber, h⟩ := Option.map_eq_some_iff.mp hcomponents
    cases h
    exact hrepeated ⟨.vector, "vector", element, count⟩ (by rw [repetition?, hkind]) hnumber rfl
  next element length hkind =>
    obtain ⟨_, hnumber, h⟩ := Option.map_eq_some_iff.mp hcomponents
    cases h
    exact hrepeated ⟨.array, "array", element, m.arrayLength length⟩ (by rw [repetition?, hkind])
      hnumber rfl
  next =>
    obtain ⟨_, hnumber, hone⟩ := Option.map_eq_some_iff.mp hcomponents
    cases hone
    obtain ⟨hsize, hcount, -⟩ := hasLayout_of_number h hnumber
    rw [Layout.packedSize, hsize, hcount]
    rfl

theorem components?_of_format {format : VertexFormat} (h : m.HasLayout id layout)
    (hformat : VertexFormat.ofBase? layout.baseType layout.baseCount = some format) :
    m.components? id = some (format.component, format.channels) := by
  rw [← baseType_of_hasLayout h]
  unfold VertexFormat.ofBase? at hformat
  split at hformat
  · cases hformat
  next component hname =>
    split at hformat
    · cases hformat
      rw [hname, Option.map_some]
    · cases hformat

/-- Whether the attributes of a buffer fit the inputs that they feed: each input is a 32-bit number,
or a vector or array of one to four such numbers, and takes up four bytes for each channel of its
format, up to where the next attribute begins or the vertex ends. -/
structure BufferFits (m : ShaderModule) (entry : EntryLayout) (locations : List Word)
    (declared : VertexBinding) (attributes : List VertexAttribute) : Prop where
  locations : attributes.map (·.location) = locations
  bindings : ∀ fed ∈ attributes, fed.binding = declared.binding
  begins : (VertexInputLayout.boundaries attributes declared.stride.toNat).head? = some 0
  reserved : ∀ (place : Nat) (fed : VertexAttribute), attributes[place]? = some fed →
    ∃ (input : LocatedInput) (layout : Layout) (pointee : Ident),
      entry.inputs[fed.location]? = some input ∧ input.layout = .ok layout ∧
      m.variableLayout input.variableId = .ok layout ∧ m.pointee input.variableId = .ok pointee ∧
      m.components? pointee = some (fed.format.component, fed.format.channels) ∧
      layout.packedSize = 4 * fed.format.channels ∧
      (VertexInputLayout.boundaries attributes declared.stride.toNat)[place + 1]? =
        some (fed.offset.toNat + layout.packedSize)
  aligned : 4 ∣ declared.stride.toNat ∧ ∀ fed ∈ attributes, 4 ∣ fed.offset.toNat
  stride : declared.stride.toNat = 4 * (attributes.map (·.format.channels)).sum

section Buffers

open VertexInputLayout

variable {entry : EntryLayout}

theorem layout_of_entryLayouts (hentry : entry ∈ m.entryLayouts) {location : Word}
    {input : LocatedInput} (hinput : entry.inputs[location]? = some input) :
    input.layout = m.variableLayout input.variableId :=
  congrArg LocatedInput.layout (input_eq_of_entryLayouts m hentry hinput).2

theorem components_of_feeds (hentry : entry ∈ m.entryLayouts) {location : Word}
    {format : VertexFormat} (hfeeds : entry.Feeds location layout format) :
    ∃ input pointee, entry.inputs[location]? = some input ∧ input.layout = .ok layout ∧
      m.variableLayout input.variableId = .ok layout ∧ m.pointee input.variableId = .ok pointee ∧
      m.components? pointee = some (format.component, format.channels) ∧
      layout.packedSize = 4 * format.channels := by
  obtain ⟨input, hinput, hlayout, hformat⟩ := hfeeds
  have hvariable := hlayout
  rw [layout_of_entryLayouts hentry hinput] at hvariable
  obtain ⟨pointee, hpointee, hresolved, -⟩ := variableLayout_eq_ok_iff.mp hvariable
  have hcomponents := components?_of_format hresolved hformat
  exact ⟨input, pointee, hinput, hlayout, hvariable, hpointee, hcomponents,
    packedSize_of_components hresolved hcomponents⟩

theorem bufferFits_of_packed (hentry : entry ∈ m.entryLayouts) {locations : List Word}
    {declared : VertexBinding} {attributes : List VertexAttribute}
    (hpacked : Packed entry declared.binding 0 locations attributes declared.stride.toNat) :
    m.BufferFits entry locations declared attributes := by
  have hsize : ∀ {location layout format}, entry.Feeds location layout format →
      layout.packedSize = 4 * format.channels := by
    intro location layout format hfeeds
    obtain ⟨_, _, -, -, -, -, -, hsize⟩ := components_of_feeds hentry hfeeds
    exact hsize
  refine ⟨hpacked.locations_eq, ?_, hpacked.head?_boundaries, ?_, ?_, ?_⟩
  · intro fed hfed
    obtain ⟨place, hplace⟩ := List.mem_iff_getElem?.mp hfed
    obtain ⟨_, -, hbinding, -⟩ := hpacked.next_boundary hplace
    exact hbinding
  · intro place fed hfed
    obtain ⟨layout, hfeeds, -, hnext⟩ := hpacked.next_boundary hfed
    obtain ⟨input, pointee, hinput, hlayout, hvariable, hpointee, hcomponents, hbytes⟩ :=
      components_of_feeds hentry hfeeds
    exact ⟨input, layout, pointee, hinput, hlayout, hvariable, hpointee, hcomponents, hbytes,
      hnext⟩
  · apply hpacked.aligned
    · intro location layout format hfeeds
      exact ⟨format.channels, hsize hfeeds⟩
    · exact Nat.dvd_zero 4
  · rw [hpacked.stop_eq hsize, Nat.zero_add]

end Buffers

/-- The attributes of a vertex-input state fit the inputs that they feed, buffer by buffer. -/
theorem attributes_fit_inputs {entry : EntryLayout} (hentry : entry ∈ m.entryLayouts)
    {request : VertexInputRequest} {result : VertexInputLayout}
    (hbuild : VertexInputLayout.build request entry = .ok result) :
    ∃ blocks : List (List VertexAttribute), result.attributes = blocks.flatten ∧
      blocks.length = request.buffers.length ∧
      result.bindings.length = request.buffers.length ∧
      ∀ (place : Nat) (locations : List Word), request.buffers[place]? = some locations →
        ∃ (declared : VertexBinding) (attributes : List VertexAttribute),
          result.bindings[place]? = some declared ∧ blocks[place]? = some attributes ∧
          m.BufferFits entry locations declared attributes := by
  obtain ⟨blocks, hattributes, hblocks, hbindings, hbuffers⟩ :=
    VertexInputLayout.isPacked_of_build hbuild
  refine ⟨blocks, hattributes, hblocks, hbindings, ?_⟩
  intro place locations hlocations
  obtain ⟨declared, attributes, hdeclared, hblock, heq, hpacked⟩ :=
    hbuffers place locations hlocations
  refine ⟨declared, attributes, hdeclared, hblock, bufferFits_of_packed hentry ?_⟩
  rw [heq]
  exact hpacked

/-- One buffer is fed from a vector of floats and from an array of integers whose length is a
constant, the other twice from one location. -/
theorem attributes_fit_inputs_two_buffers :
    let words := (Assembly.ofStatements
      [.entryPoint 0 1 "main" [20, 21, 22], .decorate 20 30 [0], .decorate 21 30 [1],
        .decorate 22 30 [5], .typeFloat 2 32, .typeVector 3 2 3, .typeInt 4 32 true,
        .constant 4 5 2, .typeArray 6 4 5, .typeInt 7 32 false, .typePointer 8 1 3,
        .typePointer 9 1 6, .typePointer 10 1 7, .moduleVariable 8 20 1, .moduleVariable 9 21 1,
        .moduleVariable 10 22 1]).words
    ∃ m entry result, parse .core {} words = .ok m ∧ entry ∈ m.entryLayouts ∧
      VertexInputLayout.build ⟨[[0, 1], [5, 5]]⟩ entry = .ok result ∧
      result.bindings.map (·.stride) = [20, 8] ∧
      ∃ blocks : List (List VertexAttribute), result.attributes = blocks.flatten ∧
        ∃ first firsts second seconds, result.bindings[0]? = some first ∧
          result.bindings[1]? = some second ∧ blocks = [firsts, seconds] ∧
          m.BufferFits entry [0, 1] first firsts ∧ m.BufferFits entry [5, 5] second seconds := by
  intro words
  have hstrides : (parse .core {} words).toOption.bind (fun m => m.entryLayouts.head?.bind
      fun entry => (VertexInputLayout.build ⟨[[0, 1], [5, 5]]⟩ entry).toOption.map
        (·.bindings.map (·.stride))) = some [20, 8] := by decide +kernel
  obtain ⟨m, hparsed, hentries⟩ := Option.bind_eq_some_iff.mp hstrides
  obtain ⟨entry, hentry, hbuilt⟩ := Option.bind_eq_some_iff.mp hentries
  obtain ⟨result, hresult, hbindings⟩ := Option.map_eq_some_iff.mp hbuilt
  have hmem := List.mem_of_mem_head? hentry
  have hbuild := eq_ok_of_toOption hresult
  obtain ⟨blocks, hattributes, hblocks, -, hbuffers⟩ := attributes_fit_inputs hmem hbuild
  obtain ⟨first, firsts, hfirst, hfirsts, hfit⟩ := hbuffers 0 [0, 1] rfl
  obtain ⟨second, seconds, hsecond, hseconds, hfit'⟩ := hbuffers 1 [5, 5] rfl
  have hpair : blocks = [firsts, seconds] := by
    match blocks, hblocks, hfirsts, hseconds with
    | [_, _], _, rfl, rfl => rfl
  exact ⟨m, entry, result, eq_ok_of_toOption hparsed, hmem, hbuild, hbindings, blocks, hattributes,
    first, firsts, second, seconds, hfirst, hsecond, hpair, hfit, hfit'⟩

end ShaderModule

end ShaderReflection
