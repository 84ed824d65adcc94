import ShaderReflection.Proofs.Descriptor
import ShaderReflection.Proofs.Interface
import ShaderReflection.Proofs.Layout.Composition
import ShaderReflection.Proofs.Module.Invariant
import ShaderReflection.Proofs.Rendering.Completeness

/-!
What a variable's data depend on. Its layout and its text are made from the types that are reached
from its own, so two modules that agree on these give the same answers, whatever else they declare.
-/

namespace ShaderReflection

namespace ShaderModule

/-- Whether a type is reached from another through pointees, bases and members. -/
inductive Reaches (m : ShaderModule) : Ident → Ident → Prop
  | self (id : Ident) : Reaches m id id
  | through {id part target : Ident} {kind : TypeKind} :
      m.kind? id = some kind → part ∈ kind.mentioned → Reaches m part target → Reaches m id target

/-- Whether two modules agree on what is reached from a type: the types, the names of members of
structs, and the constants that give arrays their lengths. -/
structure AgreeBelow (m m' : ShaderModule) (root : Ident) : Prop where
  types : ∀ id, m.Reaches root id → m'.type? id = m.type? id
  memberNames : ∀ id members, m.Reaches root id → m.kind? id = some (.struct members) →
    ∀ member, m'.memberName? id member = m.memberName? id member
  lengths : ∀ id element length, m.Reaches root id → m.kind? id = some (.array element length) →
    m'.constant? length = m.constant? length

namespace AgreeBelow

variable {m m' : ShaderModule} {id part : Ident} {kind : TypeKind}

theorem of_mentioned (h : m.AgreeBelow m' id) (hkind : m.kind? id = some kind)
    (hpart : part ∈ kind.mentioned) : m.AgreeBelow m' part where
  types target htarget := h.types target (.through hkind hpart htarget)
  memberNames target members htarget :=
    h.memberNames target members (.through hkind hpart htarget)
  lengths target element length htarget :=
    h.lengths target element length (.through hkind hpart htarget)

theorem kind?_eq (h : m.AgreeBelow m' id) : m'.kind? id = m.kind? id := by
  rw [kind?, kind?, h.types id (.self id)]

theorem memberName?_eq {members : List Ident} (h : m.AgreeBelow m' id)
    (hkind : m.kind? id = some (.struct members)) (member : Word) :
    m'.memberName? id member = m.memberName? id member :=
  h.memberNames id members (.self id) hkind member

theorem arrayLength_eq {element : Ident} {length : Word} (h : m.AgreeBelow m' id)
    (hkind : m.kind? id = some (.array element length)) :
    m'.arrayLength length = m.arrayLength length := by
  rw [arrayLength, arrayLength, h.lengths id element length (.self id) hkind]

/-- Agreement on some types that mention no others is agreement below each of them. -/
theorem of_closed (ids : List Ident)
    (hclosed : ∀ id ∈ ids, ∀ kind, m.kind? id = some kind → ∀ part ∈ kind.mentioned, part ∈ ids)
    (htypes : ∀ id ∈ ids, m'.type? id = m.type? id)
    (hnames : ∀ id ∈ ids, m'.memberNames[id]? = m.memberNames[id]?)
    (hlengths : ∀ id ∈ ids, ∀ element length, m.kind? id = some (.array element length) →
      m'.constant? length = m.constant? length)
    {root : Ident} (hroot : root ∈ ids) : m.AgreeBelow m' root := by
  have hreached : ∀ {target}, m.Reaches root target → target ∈ ids := by
    intro target htarget
    induction htarget with
    | self => exact hroot
    | through hkind hpart _ ih => exact ih (hclosed _ hroot _ hkind _ hpart)
  constructor
  case types =>
    intro id hid
    exact htypes id (hreached hid)
  case memberNames =>
    intro id members hid _ member
    rw [memberName?, memberName?, hnames id (hreached hid)]
  case lengths =>
    intro id element length hid hkind
    exact hlengths id (hreached hid) element length hkind

end AgreeBelow

end ShaderModule

open ShaderModule

variable {m m' : ShaderModule} {id : Ident} {kind : TypeKind}

namespace Layout

variable {layoutOf layoutOf' : Ident → Query Layout}

theorem ofMembers_congr (h : m.AgreeBelow m' id) {members : List Ident}
    (hkind : m.kind? id = some (.struct members))
    (hlayouts : ∀ member ∈ members, layoutOf' member = layoutOf member) :
    ofMembers m' layoutOf' id members = ofMembers m layoutOf id members := by
  have hadd : ∀ block member, member ∈ members →
      Block.add m' layoutOf' id block member = Block.add m layoutOf id block member := by
    intro block member hmember
    unfold Block.add
    rw [(h.of_mentioned hkind hmember).kind?_eq, hlayouts member hmember, h.memberName?_eq hkind]
  have hfold : members.foldlM (Block.add m' layoutOf' id) {} =
      members.foldlM (Block.add m layoutOf id) {} := by
    rw [List.foldlM_eq_foldl, List.foldlM_eq_foldl]
    apply List.foldl_ext
    intro earlier member hmember
    simp only [hadd _ member hmember]
  rw [ofMembers, ofMembers, hfold]

theorem ofKind_congr (h : m.AgreeBelow m' id) (hkind : m.kind? id = some kind)
    (hlayouts : ∀ part ∈ kind.mentioned, layoutOf' part = layoutOf part) :
    ofKind m' layoutOf' id kind = ofKind m layoutOf id kind := by
  cases kind with
  | vector part | matrix part | sampledImage part =>
      simp only [ofKind, hlayouts part (List.mem_singleton_self part)]
  | array part length =>
      simp only [ofKind, hlayouts part (List.mem_singleton_self part), h.arrayLength_eq hkind]
  | struct members => exact ofMembers_congr h hkind hlayouts
  | _ => rfl

/-- The layout of a type reads nothing but what is reached from it. -/
theorem resolve_congr (h : m.AgreeBelow m' id) (levels : Nat) :
    (resolve m' levels id : Query Layout) = resolve m levels id := by
  induction levels generalizing id with
  | zero => rfl
  | succ levels ih =>
      -- What a part reaches is reached from the type, so the modules agree below the part too.
      rw [resolve, resolve, h.kind?_eq]
      cases hkind : m.kind? id with
      | none => rfl
      | some kind =>
          simp only
          rw [ofKind_congr h hkind fun part hpart => ih (h.of_mentioned hkind hpart)]

end Layout

namespace Rendering

variable {print print' : Ident → Session String}

theorem members_congr {ids : List Ident}
    (hnames : ∀ member, m'.memberName? id member = m.memberName? id member)
    (hprints : ∀ member ∈ ids, print' member = print member) (place : Nat) (done : List String) :
    members m' print' id place done ids = members m print id place done ids := by
  induction ids generalizing place done with
  | nil => rfl
  | cons member rest ih =>
      rw [List.forall_mem_cons] at hprints
      unfold members
      simp only [hprints.1, hnames, ih hprints.2]

theorem ofKind_congr (h : m.AgreeBelow m' id) (hkind : m.kind? id = some kind)
    (hprints : ∀ part ∈ kind.mentioned, print' part = print part) :
    ofKind m' print' id kind = ofKind m print id kind := by
  cases kind with
  | vector part | matrix part | sampledImage part =>
      simp only [ofKind, hprints part (List.mem_singleton_self part)]
  | pointer storage part =>
      simp only [ofKind, hprints part (List.mem_singleton_self part)]
  | array part length =>
      simp only [ofKind, hprints part (List.mem_singleton_self part), h.arrayLength_eq hkind]
  | struct ids =>
      have htexts : members m' print' id 0 [] ids = members m print id 0 [] ids :=
        members_congr (h.memberName?_eq hkind) hprints 0 []
      rw [ofKind, ofKind, htexts]
  | _ => rfl

/-- The text of a type reads nothing but what is reached from it. -/
theorem render_congr (h : m.AgreeBelow m' id) (levels : Nat) (path : List Ident) :
    (render m' levels path id : Session String) = render m levels path id := by
  induction levels generalizing id path with
  | zero => rfl
  | succ levels ih =>
      rw [render, render, h.kind?_eq]
      cases hkind : m.kind? id with
      | none => rfl
      | some kind =>
          simp only
          rw [ofKind_congr h hkind fun part hpart => ih (h.of_mentioned hkind hpart) (id :: path)]

end Rendering

namespace ShaderModule

section Variables

variable {declared : Variable}

theorem pointee_congr (hdeclared : m.variableAt? id = some declared)
    (hdeclared' : m'.variableAt? id = some declared) (h : m.AgreeBelow m' declared.type) :
    m'.pointee id = m.pointee id := by
  unfold pointee
  simp only [hdeclared, hdeclared', h.kind?_eq]
  cases hkind : m.kind? declared.type with
  | none => rfl
  | some kind =>
      cases kind with
      | pointer storage part =>
          have hpart := h.of_mentioned hkind (List.mem_singleton_self part)
          simp only [hpart.kind?_eq]
      | _ => rfl

theorem variableLayout_congr (hdeclared : m.variableAt? id = some declared)
    (hdeclared' : m'.variableAt? id = some declared) (h : m.AgreeBelow m' declared.type) :
    m'.variableLayout id = m.variableLayout id := by
  unfold variableLayout
  rw [pointee_congr hdeclared hdeclared' h]
  cases hpointee : m.pointee id with
  | error error => rw [error_bind, error_bind]
  | ok part =>
      obtain ⟨other, storage, hother, hkind, -⟩ := pointee_eq_ok_iff.mp hpointee
      obtain rfl := Option.some.inj (hdeclared.symm.trans hother)
      have hpart := h.of_mentioned hkind (List.mem_singleton_self part)
      rw [ok_bind, ok_bind, Layout.resolve_congr hpart]

theorem typeText_congr (h : m.AgreeBelow m' id) : m'.typeText id = m.typeText id := by
  unfold typeText
  rw [Rendering.render_congr h]

theorem variableText_congr (hdeclared : m.variableAt? id = some declared)
    (hdeclared' : m'.variableAt? id = some declared) (h : m.AgreeBelow m' declared.type) :
    m'.variableText id = m.variableText id := by
  rw [variableText_eq hdeclared, variableText_eq hdeclared', typeText_congr h]

end Variables

/-- Whether two modules have the same data about a variable that both of them declare: in its
descriptor, if it is uniform, and in the inputs of entry points that belong to it. -/
structure SameResources (m m' : ShaderModule) (id : Ident) (declared : Variable) : Prop where
  descriptor : declared.storage.isUniform = true →
    ∃ descriptor, m.descriptors.filter (·.variableId == id) = [descriptor] ∧
      m'.descriptors.filter (·.variableId == id) = [descriptor]
  inputs : ∀ layout ∈ m.entryLayouts, ∀ layout' ∈ m'.entryLayouts,
    ∀ (location location' : Word) (input input' : LocatedInput),
      layout.inputs[location]? = some input → layout'.inputs[location']? = some input' →
        input.variableId = id → input'.variableId = id → location' = location ∧ input' = input
  /-- No other variable takes the place of an input, unless it moves there itself. -/
  kept : ∀ entry : EntryPoint,
    (∀ other ∈ entry.interface, m'.hasClass .input other = m.hasClass .input other ∧
      m'.location? other = m.location? other) →
    ∀ (location : Word) (input : LocatedInput),
      (m.entryLayout entry).inputs[location]? = some input → input.variableId = id →
        (m'.entryLayout entry).inputs[location]? = some input

section Resources

variable {names : NameTable} {options : ParseOptions} {words : List Word} {declared : Variable}

theorem filter_variableId_descriptors_of_parse (hparsed : parse names options words = .ok m)
    (hdeclared : m.variableAt? id = some declared) (huniform : declared.storage.isUniform = true) :
    m.descriptors.filter (·.variableId == id) = [m.descriptor id] := by
  have hinvariant := invariant_of_reached (reached_of_parse hparsed)
  apply filter_variableId_descriptors m hinvariant.uniformDistinct
  exact (hinvariant.uniform id).mpr ⟨declared, hdeclared, StorageClass.isUniform_iff.mp huniform⟩

theorem descriptor_congr (hname : m'.name? id = m.name? id)
    (hdecorations : m'.decorationsOf id = m.decorationsOf id)
    (hlayout : m'.variableLayout id = m.variableLayout id) :
    m'.descriptor id = m.descriptor id := by
  simp only [descriptor, decorationValue?, decorationArgs?, hname, hdecorations, hlayout]

theorem location?_congr (hdecorations : m'.decorationsOf id = m.decorationsOf id) :
    m'.location? id = m.location? id := by
  rw [location?, location?, hdecorations]

theorem input_congr (hname : m'.name? id = m.name? id)
    (hdecorations : m'.decorationsOf id = m.decorationsOf id)
    (hsame : m'.variableLayout id = m.variableLayout id) {layout layout' : EntryLayout}
    (hlayout : layout ∈ m.entryLayouts) (hlayout' : layout' ∈ m'.entryLayouts)
    {location location' : Word} {input input' : LocatedInput}
    (hinput : layout.inputs[location]? = some input)
    (hinput' : layout'.inputs[location']? = some input')
    (hid : input.variableId = id) (hid' : input'.variableId = id) :
    location' = location ∧ input' = input := by
  obtain ⟨hlocation, hdata⟩ := input_eq_of_entryLayouts m hlayout hinput
  obtain ⟨hlocation', hdata'⟩ := input_eq_of_entryLayouts m' hlayout' hinput'
  rw [hid] at hlocation hdata
  rw [hid', location?_congr hdecorations] at hlocation'
  obtain rfl := Option.some.inj (hlocation'.symm.trans hlocation)
  rw [hid', hname, hsame] at hdata'
  exact ⟨rfl, hdata'.trans hdata.symm⟩

theorem input_kept (hname : m'.name? id = m.name? id)
    (hlayout : m'.variableLayout id = m.variableLayout id) {entry : EntryPoint}
    (hinterface : ∀ other ∈ entry.interface, m'.hasClass .input other = m.hasClass .input other ∧
      m'.location? other = m.location? other)
    {location : Word} {input : LocatedInput}
    (hinput : (m.entryLayout entry).inputs[location]? = some input)
    (hid : input.variableId = id) : (m'.entryLayout entry).inputs[location]? = some input := by
  -- The last id listed at the location decides, and the interface lists the same ones there.
  have hlisted :
      (entry.interface.filter fun other =>
        m'.location? other = some location && m'.hasClass .input other) =
      entry.interface.filter fun other =>
        m.location? other = some location && m.hasClass .input other := by
    apply List.filter_congr
    intro other hother
    rw [(hinterface other hother).1, (hinterface other hother).2]
  rw [getElem?_entryLayout_inputs_of_listed] at hinput ⊢
  rw [hlisted]
  obtain ⟨last, hlast, rfl⟩ := Option.map_eq_some_iff.mp hinput
  obtain rfl : last = id := hid
  rw [hlast, Option.map_some, hname, hlayout]

end Resources

/-- The data of a variable are its own. What a module declares apart from the variable and the types
that it reaches changes neither its layout, errors included, nor its text, nor, if its name and its
decorations stay the same, its descriptor and its inputs. -/
theorem variables_isolated {names names' : NameTable} {options options' : ParseOptions}
    {words words' : List Word} {m m' : ShaderModule} (hparsed : parse names options words = .ok m)
    (hparsed' : parse names' options' words' = .ok m') {id : Ident} {declared : Variable}
    (hdeclared : m.variableAt? id = some declared)
    (hdeclared' : m'.variableAt? id = some declared) (hbelow : m.AgreeBelow m' declared.type) :
    m'.variableLayout id = m.variableLayout id ∧ m'.variableText id = m.variableText id ∧
      (m'.name? id = m.name? id → m'.decorationsOf id = m.decorationsOf id →
        m.SameResources m' id declared) := by
  have hlayout := variableLayout_congr hdeclared hdeclared' hbelow
  refine ⟨hlayout, variableText_congr hdeclared hdeclared' hbelow, ?_⟩
  intro hname hdecorations
  constructor
  case descriptor =>
    intro huniform
    refine ⟨m.descriptor id, filter_variableId_descriptors_of_parse hparsed hdeclared huniform, ?_⟩
    rw [← descriptor_congr hname hdecorations hlayout]
    exact filter_variableId_descriptors_of_parse hparsed' hdeclared' huniform
  case inputs =>
    intro layout hmem layout' hmem' location location' input input' hinput hinput' hid hid'
    exact input_congr hname hdecorations hlayout hmem hmem' hinput hinput' hid hid'
  case kept =>
    intro entry hinterface location input hinput hid
    exact input_kept hname hlayout hinterface hinput hid

/-- Two modules that differ in a struct. In the first it contains itself, so a uniform variable and
an input have no layout, but a block and another input are the same in both. -/
theorem variables_isolated_beside_endless_struct :
    let stage (members : List Ident) : List Word := (Assembly.ofStatements
      [.entryPoint 0 1 "main" [20, 21], .name 7 "block", .memberName 4 1 "weights",
        .decorate 7 34 [0], .decorate 7 33 [2], .decorate 20 30 [0], .decorate 21 30 [1],
        .typeFloat 2 32, .constant 2 6 3, .typeArray 3 2 6, .typeStruct 4 [2, 3],
        .typePointer 5 2 4, .moduleVariable 5 7 2, .typePointer 9 1 2, .moduleVariable 9 20 1,
        .typeStruct 10 members, .typePointer 11 2 10, .moduleVariable 11 8 2,
        .typePointer 12 1 10, .moduleVariable 12 21 1]).words
    let entry : EntryPoint := ⟨"main", 1, .vertex, [20, 21]⟩
    ∃ m m', parse .core {} (stage [10]) = .ok m ∧ parse .core {} (stage [2, 2]) = .ok m' ∧
      ((m.variableLayout 8).isOk = false ∧ (m'.variableLayout 8).isOk = true) ∧
      m'.variableLayout 7 = m.variableLayout 7 ∧ m'.variableText 7 = m.variableText 7 ∧
      (∃ descriptor, m.descriptors.filter (·.variableId == 7) = [descriptor] ∧
        m'.descriptors.filter (·.variableId == 7) = [descriptor]) ∧
      ∃ input, (m.entryLayout entry).inputs[(0 : Word)]? = some input ∧
        (m'.entryLayout entry).inputs[(0 : Word)]? = some input := by
  intro stage entry
  let types : List Ident := [2, 3, 4, 5, 9]
  have hok : (parse .core {} (stage [10])).isOk = true := by decide +kernel
  have hok' : (parse .core {} (stage [2, 2])).isOk = true := by decide +kernel
  have hfacts : (parse .core {} (stage [10])).toOption.bind (fun m =>
      (parse .core {} (stage [2, 2])).toOption.map fun m' => decide (
        ((m.variableLayout 8).isOk = false ∧ (m'.variableLayout 8).isOk = true) ∧
        types.map m.kind? = [some (.float 32), some (.array 2 6), some (.struct [2, 3]),
          some (.pointer .uniform 4), some (.pointer .input 2)] ∧
        types.map m'.type? = types.map m.type? ∧
        (types.map fun id => m'.memberNames[id]?) = (types.map fun id => m.memberNames[id]?) ∧
        m'.constant? 6 = m.constant? 6)) = some true := by
    decide +kernel
  have hvariables : (parse .core {} (stage [10])).toOption.bind (fun m =>
      (parse .core {} (stage [2, 2])).toOption.map fun m' => decide (
        (m.variableAt? 7 = some ⟨7, 5, .uniform⟩ ∧ m'.variableAt? 7 = some ⟨7, 5, .uniform⟩) ∧
        (m.variableAt? 20 = some ⟨20, 9, .input⟩ ∧ m'.variableAt? 20 = some ⟨20, 9, .input⟩) ∧
        (m'.name? 7 = m.name? 7 ∧ m'.decorationsOf 7 = m.decorationsOf 7) ∧
        (m'.name? 20 = m.name? 20 ∧ m'.decorationsOf 20 = m.decorationsOf 20))) = some true := by
    decide +kernel
  have hslots : (parse .core {} (stage [10])).toOption.bind (fun m =>
      (parse .core {} (stage [2, 2])).toOption.map fun m' => decide (
        entry.interface.map (m'.hasClass .input) = entry.interface.map (m.hasClass .input) ∧
        entry.interface.map m'.location? = entry.interface.map m.location? ∧
        ((m.entryLayout entry).inputs[(0 : Word)]?).map (·.variableId) = some 20)) =
          some true := by
    decide +kernel
  obtain ⟨m, hparsed⟩ := exists_of_isOk hok
  obtain ⟨m', hparsed'⟩ := exists_of_isOk hok'
  rw [hparsed, hparsed'] at hfacts hvariables hslots
  obtain ⟨houtcomes, hkinds, htypes, hnames, hlength⟩ :=
    of_decide_eq_true (Option.some.inj hfacts)
  obtain ⟨⟨hblock, hblock'⟩, ⟨hinput, hinput'⟩, ⟨hname, hdecorations⟩, hname', hdecorations'⟩ :=
    of_decide_eq_true (Option.some.inj hvariables)
  obtain ⟨hclasses, hlocations, hslot⟩ := of_decide_eq_true (Option.some.inj hslots)
  have hbelow : ∀ root ∈ types, m.AgreeBelow m' root := by
    intro root
    apply AgreeBelow.of_closed
    case hclosed => grind [TypeKind.mentioned]
    case htypes => exact List.map_inj_left.mp htypes
    case hnames => exact List.map_inj_left.mp hnames
    case hlengths => grind
  obtain ⟨hlayout, htext, hresources⟩ :=
    variables_isolated hparsed hparsed' hblock hblock' (hbelow 5 (by decide))
  obtain ⟨-, -, hinputs⟩ :=
    variables_isolated hparsed hparsed' hinput hinput' (hbelow 9 (by decide))
  obtain ⟨input, hfound, hid⟩ := Option.map_eq_some_iff.mp hslot
  exact ⟨m, m', hparsed, hparsed', houtcomes, hlayout, htext,
    (hresources hname hdecorations).descriptor rfl, input, hfound,
    (hinputs hname' hdecorations').kept entry (fun id hid =>
      ⟨List.map_inj_left.mp hclasses id hid, List.map_inj_left.mp hlocations id hid⟩)
      0 input hfound hid⟩

end ShaderModule

end ShaderReflection
