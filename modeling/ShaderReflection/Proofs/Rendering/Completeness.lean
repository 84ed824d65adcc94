import ShaderReflection.Proofs.Layout.Composition
import ShaderReflection.Proofs.Module.Assembly
import ShaderReflection.Proofs.Rendering.Cost

/-!
Which text is the complete text of a type, and when it is the one that is shown. Layouts and
renderings are bounded by the same limits, but a variable's pointer is a node of its rendering only.
So a variable may have a layout though its text is cut off, as may a type whose names use up the
limit.
-/

namespace ShaderReflection

/-- The text before the type of a variable of a storage class. -/
def StorageClass.direction : StorageClass → String
  | .input => "in "
  | .output => "out "
  | _ => ""

namespace ShaderModule

open Rendering

variable (m : ShaderModule)

/-- The complete text of a type, put together from the complete texts of the types that its shape
mentions. A type that contains itself has none. -/
inductive HasText : Ident → String → Prop
  | undefined {id} : m.kind? id = none → HasText id "<unknown type>"
  | defined {id kind} (textOf : Ident → String) :
      m.kind? id = some kind → (∀ part ∈ kind.mentioned, HasText part (textOf part)) →
        HasText id (frame m textOf id kind)

/-- The complete text of a variable. -/
def HasVariableText (id : Ident) (text : String) : Prop :=
  ∃ declared type, m.variableAt? id = some declared ∧ m.HasText declared.type type ∧
    text = declared.storage.direction ++ type

/-- Whether the rendering of a type begins no member when it has copied exactly as many bytes of
names as are allowed. -/
def NamesRoom (id : Ident) : Prop :=
  ∀ before after, steps m id = before ++ .member :: after → copied before ≠ maxNameBytes

variable {m} {id : Ident}

section Texts

theorem memberTexts_congr {textOf textOf' : Ident → String} (id : Ident) {members : List Ident}
    (hsame : ∀ member ∈ members, textOf member = textOf' member) (place : Nat) :
    memberTexts m textOf id place members = memberTexts m textOf' id place members := by
  induction members generalizing place with
  | nil => rfl
  | cons member rest ih =>
      rw [List.forall_mem_cons] at hsame
      rw [memberTexts, memberTexts, hsame.1, ih hsame.2]

theorem frame_congr {textOf textOf' : Ident → String} (id : Ident) {kind : TypeKind}
    (hsame : ∀ part ∈ kind.mentioned, textOf part = textOf' part) :
    frame m textOf id kind = frame m textOf' id kind := by
  cases kind with
  | void | bool | int | float | image | sampler => rfl
  | vector part | array part | matrix part | pointer _ part | sampledImage part =>
      have hpart := hsame part (List.mem_singleton_self _)
      simp only [frame, hpart]
  | struct members =>
      have hmembers : memberTexts m textOf id 0 members = memberTexts m textOf' id 0 members :=
        memberTexts_congr id hsame 0
      simp only [frame, hmembers]

theorem HasText.unique {text text' : String} (h : m.HasText id text) (h' : m.HasText id text') :
    text = text' := by
  induction h generalizing text' with
  | undefined hkind =>
      cases h' with
      | undefined => rfl
      | defined _ hkind' =>
          rw [hkind] at hkind'
          cases hkind'
  | defined textOf hkind _ ih =>
      cases h' with
      | undefined hkind' =>
          rw [hkind] at hkind'
          cases hkind'
      | defined textOf' hkind' hparts' =>
          obtain rfl := Option.some.inj (hkind.symm.trans hkind')
          exact frame_congr _ fun part hpart => ih part hpart (hparts' part hpart)

/-- Without a budget, a type that unfolds is rendered completely. -/
theorem hasText_reference {levels : Nat} {path : List Ident} (h : Unfolds m levels path id) :
    m.HasText id (reference m levels path id) := by
  induction levels generalizing id path with
  | zero => exact h.elim
  | succ levels ih =>
      obtain ⟨hpath, hparts⟩ := h
      rw [reference, if_neg (by simpa using hpath)]
      cases hkind : m.kind? id with
      | none => exact .undefined hkind
      | some kind => exact .defined _ hkind fun part hpart => ih (hparts kind hkind part hpart)

theorem variableText_eq {declared : Variable} (hdeclared : m.variableAt? id = some declared) :
    m.variableText id = declared.storage.direction ++ m.typeText declared.type := by
  rw [variableText, hdeclared]
  cases hstorage : declared.storage <;> simp [hstorage, StorageClass.direction]

end Texts

section Types

/-- The complete text of a type that unfolds is shown exactly if the budget allows every step. -/
theorem hasText_typeText_iff (hunfolds : Unfolds m (maxLayoutDepth + 1) [] id) :
    m.HasText id (m.typeText id) ↔
      visits (steps m id) ≤ maxTypeNodes ∧ copied (steps m id) ≤ maxNameBytes ∧
        Room 0 (steps m id) := by
  rw [← allowed_iff]
  constructor
  · intro hcomplete
    rw [← Option.ne_none_iff_exists']
    intro hrefused
    -- A cut leaves dots where the complete text has something else, and that text is the only one.
    have hcut : Cut (m.typeText id) (reference m (maxLayoutDepth + 1) [] id) :=
      run_render_cut hunfolds hrefused
    exact hcut.ne (hcomplete.unique (hasText_reference hunfolds))
  · rintro ⟨budget, hallowed⟩
    have hshown : m.typeText id = reference m (maxLayoutDepth + 1) [] id :=
      congrArg (fun outcome => outcome.run.1) (run_render hallowed)
    rw [hshown]
    exact hasText_reference hunfolds

theorem hasVariableText_variableText_iff {declared : Variable}
    (hdeclared : m.variableAt? id = some declared) :
    m.HasVariableText id (m.variableText id) ↔
      m.HasText declared.type (m.typeText declared.type) := by
  rw [variableText_eq hdeclared]
  constructor
  · rintro ⟨other, type, hother, htype, hsame⟩
    obtain rfl := Option.some.inj (hdeclared.symm.trans hother)
    rwa [String.append_right_inj _ |>.mp hsame]
  · intro h
    exact ⟨declared, _, hdeclared, h, rfl⟩

theorem NamesRoom.room (hroom : m.NamesRoom id) (hnames : copied (steps m id) ≤ maxNameBytes) :
    Room 0 (steps m id) := by
  intro before after hsteps
  have hbefore : copied before ≤ copied (steps m id) := by
    rw [hsteps, copied_append]
    exact Nat.le_add_right _ _
  have hne := hroom before after hsteps
  omega

theorem namesRoom_of_room (hroom : Room 0 (steps m id)) : m.NamesRoom id := by
  intro before after hsteps
  have := hroom before after hsteps
  omega

theorem HasText.iff_eq {text : String} (h : m.HasText id text) (other : String) :
    m.HasText id other ↔ other = text := by
  constructor
  · intro hother
    exact hother.unique h
  · rintro rfl
    exact h

end Types

section Layouts

variable {layout : Layout} {pointer pointee : Ident} {storage : StorageClass}

theorem unfolds_type (hlayout : m.HasLayout id layout)
    (hshallow : m.level (maxLayoutDepth + 1) id = []) :
    Unfolds m (maxLayoutDepth + 1) [] id :=
  unfolds_of_hasLayout hlayout hshallow fun _ _ => List.not_mem_nil

/-- Rendering a type takes from the budget what laying it out takes. -/
theorem cost_steps (hlayout : m.HasLayout id layout)
    (hshallow : m.level (maxLayoutDepth + 1) id = []) :
    visits (steps m id) = (m.nodes (maxLayoutDepth + 1) id).length ∧
      copied (steps m id) = ((m.nodes (maxLayoutDepth + 1) id).map m.labelBytes).sum := by
  obtain ⟨hvisits, hcopied⟩ :=
    cost_of_hasLayout hlayout hshallow (unfolds_type hlayout hshallow)
  rw [← hvisits, ← hcopied]
  exact ⟨rfl, Nat.zero_add _⟩

/-- A pointer to a type that has a layout unfolds one level further. -/
theorem unfolds_pointer {levels : Nat} (hkind : m.kind? pointer = some (.pointer storage pointee))
    (hlayout : m.HasLayout pointee layout) (hshallow : m.level levels pointee = []) :
    Unfolds m levels [pointer] pointee ∧ Unfolds m (levels + 1) [] pointer := by
  have hbelow : Unfolds m levels [pointer] pointee := by
    refine unfolds_of_hasLayout hlayout hshallow fun node hnode => ?_
    rw [List.mem_singleton]
    rintro rfl
    obtain ⟨depth, hnode⟩ := hnode
    obtain ⟨_, hpointer⟩ := hlayout.of_mem_level hnode
    exact not_hasLayout_pointer hkind hpointer
  refine ⟨hbelow, List.not_mem_nil, fun kind hother part hpart => ?_⟩
  obtain rfl := Option.some.inj (hkind.symm.trans hother)
  obtain rfl := List.mem_singleton.mp hpart
  exact hbelow

/-- Rendering a pointer visits one node more than laying out what it points to. -/
theorem cost_pointer (hkind : m.kind? pointer = some (.pointer storage pointee))
    (hlayout : m.HasLayout pointee layout) (hshallow : m.level maxLayoutDepth pointee = []) :
    visits (steps m pointer) = 1 + (m.nodes maxLayoutDepth pointee).length ∧
      copied (steps m pointer) =
        ((m.nodes maxLayoutDepth pointee).map m.labelBytes).sum := by
  have hsteps : steps m pointer =
      .visit :: .visit :: inside m maxLayoutDepth [pointer] pointee := by
    rw [steps, inside, if_neg (by simp), hkind]
    rfl
  obtain ⟨hvisits, hcopied⟩ :=
    cost_of_hasLayout hlayout hshallow (unfolds_pointer hkind hlayout hshallow).1
  rw [hsteps, ← hvisits, ← hcopied]
  exact ⟨rfl, by simp [copied_cons, Step.bytes]⟩

end Layouts

/-- Whenever a layout succeeds and no member is begun with the bytes of names used up exactly, the
text of a type is complete. The text of a variable is complete if, besides, the tree of what it
points to leaves a node for the pointer. -/
theorem texts_complete (m : ShaderModule) :
    (∀ id layout, m.typeLayout id = .ok layout → m.NamesRoom id →
      ∀ text, m.HasText id text ↔ text = m.typeText id) ∧
    ∀ id layout, m.variableLayout id = .ok layout →
      ∃ declared storage pointee, m.variableAt? id = some declared ∧
        m.kind? declared.type = some (.pointer storage pointee) ∧
        (m.NamesRoom declared.type →
          (∃ text, m.HasVariableText id text) ∧
          (m.HasVariableText id (m.variableText id) ↔
            (m.nodes maxLayoutDepth pointee).length < maxTypeNodes)) := by
  constructor
  · intro id layout h hroom
    obtain ⟨hlayout, hlimits⟩ := typeLayout_eq_ok_iff.mp h
    obtain ⟨hvisits, hcopied⟩ := cost_steps hlayout hlimits.shallow
    have hnodes : visits (steps m id) ≤ maxTypeNodes := hvisits ▸ hlimits.few
    have hnames : copied (steps m id) ≤ maxNameBytes := hcopied ▸ hlimits.shortNames
    have hcomplete := (hasText_typeText_iff (unfolds_type hlayout hlimits.shallow)).mpr
      ⟨hnodes, hnames, hroom.room hnames⟩
    exact hcomplete.iff_eq
  · intro id layout h
    obtain ⟨pointee, hpointee, hlayout, hlimits⟩ := variableLayout_eq_ok_iff.mp h
    obtain ⟨declared, storage, hdeclared, hkind, -⟩ := pointee_eq_ok_iff.mp hpointee
    refine ⟨declared, storage, pointee, hdeclared, hkind, fun hroom => ?_⟩
    have hunfolds := (unfolds_pointer hkind hlayout hlimits.shallow).2
    obtain ⟨hvisits, hcopied⟩ := cost_pointer hkind hlayout hlimits.shallow
    have hnames : copied (steps m declared.type) ≤ maxNameBytes := hcopied ▸ hlimits.shortNames
    refine ⟨⟨_, declared, _, hdeclared, hasText_reference hunfolds, rfl⟩, ?_⟩
    rw [hasVariableText_variableText_iff hdeclared, hasText_typeText_iff hunfolds, hvisits]
    constructor
    · rintro ⟨hnodes, -⟩
      omega
    · intro hnodes
      exact ⟨by omega, hnames, hroom.room hnames⟩

/-- A vertex input with a named and an unnamed member. -/
theorem texts_complete_vertex_input :
    let m := ofDeclarations ⟨magicNumber, 0x10000, 0, 8, 0⟩
      [.memberName 3 0 "position", .type (.ofKind 1 (.float 32)), .type (.ofKind 2 (.vector 1 3)),
        .type (.ofKind 3 (.struct [2, 1])), .type (.ofKind 4 (.pointer .input 3)),
        .moduleVariable ⟨5, 4, .input⟩]
    m.HasText 3 "\x7b vec<Float32, 3> position,Float32 \x7d" ∧
      m.HasVariableText 5 (m.variableText 5) := by
  intro m
  have htype : (m.typeLayout 3).isOk = true := by decide +kernel
  have hdeclared : (m.variableLayout 5).isOk = true := by decide +kernel
  have hstruct : ((steps m 3).foldlM Step.take {}).isSome = true := by decide +kernel
  have hpointer : ((steps m 4).foldlM Step.take {}).isSome = true := by decide +kernel
  have hvariable : m.variableAt? 5 = some ⟨5, 4, .input⟩ := by decide +kernel
  have hkind : m.kind? 4 = some (.pointer .input 3) := by decide +kernel
  have hfew : (m.nodes maxLayoutDepth 3).length < maxTypeNodes := by decide +kernel
  have htext : m.typeText 3 = "\x7b vec<Float32, 3> position,Float32 \x7d" := by decide +kernel
  obtain ⟨layout, hlayout⟩ := exists_of_isOk htype
  obtain ⟨layout', hlayout'⟩ := exists_of_isOk hdeclared
  have hroom := namesRoom_of_room (allowed_iff.mp (Option.isSome_iff_exists.mp hstruct)).2.2
  have hroom' := namesRoom_of_room (allowed_iff.mp (Option.isSome_iff_exists.mp hpointer)).2.2
  refine ⟨((texts_complete m).1 3 layout hlayout hroom _).mpr htext.symm, ?_⟩
  obtain ⟨declared, storage, pointee, hfound, hfoundKind, hiff⟩ :=
    (texts_complete m).2 5 layout' hlayout'
  obtain rfl := Option.some.inj (hvariable.symm.trans hfound)
  cases hkind.symm.trans hfoundKind
  exact (hiff hroom').2.mpr hfew

section Crowded

/-- The statements of a module with a variable that points to a struct of `wide` members, and with a
struct of `tall` members whose own first members have a name. -/
def crowded (name : String) (wide tall : Nat) : List Statement :=
  [.memberName 4 0 name, .typeSampler 1, .typeStruct 2 (List.replicate wide 1),
    .typePointer 3 2 2, .typeStruct 4 (List.replicate 2 1), .typeStruct 5 (List.replicate tall 4),
    .moduleVariable 3 6 2]

/-- A type without size whose tree ends above a depth, its number of nodes and the bytes of their
member names. -/
structure Weightless (m : ShaderModule) (levels : Nat) (id : Ident) (count bytes : Nat) :
    Prop where
  defined : m.kind? id ≠ none
  size : m.HasSize id 0
  layout : ∃ layout, m.HasLayout id layout
  shallow : m.level levels id = []
  nodes : (m.nodes levels id).length = count
  names : ((m.nodes levels id).map m.labelBytes).sum = bytes

variable {m : ShaderModule} {id part : Ident} {levels count bytes times : Nat}

theorem Weightless.sampler (hkind : m.kind? id = some .sampler) (levels : Nat) :
    m.Weightless (levels + 1) id 1 0 := by
  have hleaf : leafLayout? (m.kind? id) = some .sampler := by
    rw [hkind]
    rfl
  have hparts : m.parts id = [] := parts_of_leaf (leafSize_of_leafLayout hleaf)
  have hbytes : m.labelBytes id = 0 := labelBytes_of_not_struct (by simp [hkind])
  have hnodes : m.nodes (levels + 1) id = [id] := by
    rw [ShaderModule.nodes, hparts]
    rfl
  constructor
  case defined => simp [hkind]
  case size => exact .leaf (leafSize_of_leafLayout hleaf)
  case layout => exact ⟨_, .leaf hleaf⟩
  case shallow =>
    rw [level, hparts]
    rfl
  case nodes => rw [hnodes, List.length_singleton]
  case names => rw [hnodes, List.map_singleton, List.sum_singleton, hbytes]

/-- A struct of members of one type without a size has a layout if the type has one. -/
theorem exists_hasLayout_replicate
    (hkind : m.kind? id = some (.struct (List.replicate times part)))
    (hdefined : m.kind? part ≠ none) (hsize : m.HasSize part 0) {layout : Layout}
    (hlayout : m.HasLayout part layout) : ∃ layout, m.HasLayout id layout := by
  have hmembers : ∀ member ∈ List.replicate times part, m.kind? member ≠ none := by
    intro member hmember
    rwa [List.eq_of_mem_replicate hmember]
  have hparts : ∀ member ∈ List.replicate times part, ∃ layout, m.HasLayout member layout := by
    intro member hmember
    rw [List.eq_of_mem_replicate hmember]
    exact ⟨layout, hlayout⟩
  obtain ⟨entries, hentries, hlayouts⟩ := exists_entries id hmembers hparts
  have hweights : (entries.map (·.layout.size.toNat)).sum = 0 := by
    apply List.sum_eq_zero
    intro size hentrySize
    obtain ⟨entry, hentry, rfl⟩ := List.mem_map.mp hentrySize
    have htype : entry.typeId = part :=
      List.eq_of_mem_replicate (hentries.types ▸ List.mem_map_of_mem hentry)
    exact (htype ▸ hsize).eq_of_hasLayout (hlayouts entry hentry)
  exact ⟨_, .struct hkind hentries hlayouts (show (0 : Word).toNat = _ from hweights.symm)⟩

/-- A struct of members of one weightless type is weightless. -/
theorem Weightless.repeated (h : m.Weightless levels part count bytes)
    (hkind : m.kind? id = some (.struct (List.replicate times part))) :
    m.Weightless (levels + 1) id (1 + times * count) (m.labelBytes id + times * bytes) := by
  obtain ⟨layout, hlayout⟩ := h.layout
  constructor
  case defined => simp [hkind]
  case size =>
    have hsize := HasSize.struct (fun _ => 0) hkind fun member hmember =>
      List.eq_of_mem_replicate hmember ▸ h.size
    simpa using hsize
  case layout => exact exists_hasLayout_replicate hkind h.defined h.size hlayout
  case shallow =>
    rw [level_succ_eq_nil_iff, parts_of_struct hkind]
    intro member hmember
    rw [List.eq_of_mem_replicate hmember, h.shallow]
  case nodes =>
    rw [length_nodes_succ, parts_of_struct hkind, List.map_replicate, h.nodes, List.sum_replicate]
    rfl
  case names =>
    rw [sum_labelBytes_nodes_succ, parts_of_struct hkind, List.map_replicate, h.names,
      List.sum_replicate]
    rfl

theorem Weightless.withinLimits (h : m.Weightless levels id count bytes)
    (hcount : count ≤ maxTypeNodes) (hbytes : bytes ≤ maxNameBytes) :
    m.WithinLimits levels id where
  shallow := h.shallow
  few := h.nodes ▸ hcount
  shortNames := h.names ▸ hbytes

variable {name : String} {wide tall : Nat}

theorem parse_crowded (hclean : '\x00' ∉ name.toList) (hname : name.utf8ByteSize ≤ 4096)
    (hwide : wide < maxTypeNodes) (htall : tall < maxTypeNodes) :
    ∃ m, parse .core {} (Assembly.ofStatements (crowded name wide tall)).words = .ok m ∧
      m.Records ((crowded name wide tall).filterMap (·.declaration? .core)) := by
  unfold maxTypeNodes at hwide htall
  have hliteral : (Literal.encode name).length ≤ 1025 := by
    rw [Literal.length_encode, Utf8.length_toUTF8]
    omega
  have hbound : (Assembly.ofStatements (crowded name wide tall)).bound = 1024 := by
    rw [Assembly.bound_ofStatements]
    rfl
  -- The words are too many to be read one by one, so the statements are read back as a whole.
  apply Assembly.parse_ofStatements
  · simp [crowded, Statement.instruction?]
    omega
  · rw [hbound]
    simp [crowded, Statement.faithful_iff, Statement.texts, Statement.checkedIds,
      Statement.rawOpcode?, hclean]
  · rw [hbound]
    decide
  · simp [Assembly.words, Assembly.body_ofStatements, crowded, Statement.instruction?,
      maxModuleWords, Instruction.encode, Header.words]
    omega

section Recorded

variable (hrecords : m.Records ((crowded name wide tall).filterMap (·.declaration? .core)))

include hrecords

theorem kind_crowded :
    m.kind? 1 = some .sampler ∧ m.kind? 2 = some (.struct (List.replicate wide 1)) ∧
      m.kind? 3 = some (.pointer .uniform 2) ∧ m.kind? 4 = some (.struct (List.replicate 2 1)) ∧
      m.kind? 5 = some (.struct (List.replicate tall 4)) := by
  simp only [kind?, hrecords.type]
  exact ⟨rfl, rfl, rfl, rfl, rfl⟩

theorem memberLabel_crowded (id : Ident) (place : Nat) :
    m.memberLabel id place = if (id, place.toUInt32) = (4, 0) then name else "" := by
  have hnames : ((crowded name wide tall).filterMap (·.declaration? .core)).filterMap
      Declaration.memberNamed? = [((4, 0), name)] := rfl
  rw [memberLabel, hrecords.memberName, hnames, lastUnder_singleton]
  by_cases hkey : (id, place.toUInt32) = (4, 0)
  · rw [if_pos hkey, if_pos hkey.symm, Option.getD_some]
  · rw [if_neg hkey, if_neg (Ne.symm hkey), Option.getD_none]

theorem labelBytes_crowded (hid : id ≠ 4) : m.labelBytes id = 0 := by
  unfold labelBytes
  split
  · apply List.sum_eq_zero
    intro bytes hbytes
    obtain ⟨label, hlabel, rfl⟩ := List.mem_map.mp hbytes
    obtain ⟨place, -, rfl⟩ := List.mem_map.mp hlabel
    rw [memberLabel_crowded hrecords, if_neg (by simp [hid])]
    rfl
  · rfl

theorem labelBytes_crowded_named : m.labelBytes 4 = name.utf8ByteSize := by
  have hkind := (kind_crowded hrecords).2.2.2.1
  have hfirst : m.memberLabel 4 0 = name := memberLabel_crowded hrecords 4 0
  have hsecond : m.memberLabel 4 1 = "" := memberLabel_crowded hrecords 4 1
  rw [labelBytes_of_struct hkind, List.length_replicate, labels_succ, labels_succ, hfirst, hsecond]
  rfl

/-- The last step of the rendering begins the second member of the last struct. -/
theorem steps_crowded (htall : tall ≠ 0) : ∃ before, steps m 5 = before ++ [.member] := by
  obtain ⟨fewer, rfl⟩ := Nat.exists_eq_add_one_of_ne_zero htall
  obtain ⟨hleaf, -, -, hnamed, hstruct⟩ := kind_crowded hrecords
  have hinside : inside m 63 [4, 5] 1 = [] := by
    rw [inside, if_neg (by decide), hleaf]
    rfl
  have hsecond : m.memberLabel 4 (0 + 1) = "" := memberLabel_crowded hrecords 4 1
  have hlast : m.memberLabel 5 (0 + fewer) = "" := by
    rw [memberLabel_crowded hrecords, if_neg (by simp)]
  have hnested : ∃ before, inside m maxLayoutDepth [5] 4 = before ++ [.member] := by
    rw [maxLayoutDepth, inside, if_neg (by decide), hnamed]
    exact ⟨_, (memberSteps_replicate_succ _ 4 1 1 hsecond).trans (by rw [hinside])⟩
  obtain ⟨before, hbefore⟩ := hnested
  rw [steps, inside, if_neg (by decide), hstruct]
  refine ⟨.visit :: (memberSteps m (inside m maxLayoutDepth [5]) 5 0 (List.replicate fewer 4) ++
    .member :: before), ?_⟩
  have hsteps := memberSteps_replicate_succ (inside m maxLayoutDepth [5]) 5 4 fewer hlast
  rw [hbefore] at hsteps
  simp only [frameSteps, hsteps, List.cons_append, List.append_assoc]

end Recorded

theorem not_hasText_crowded (hclean : '\x00' ∉ name.toList) (hname : name.utf8ByteSize ≤ 4096)
    (hwide : 1 + wide = maxTypeNodes) (htall : 1 + tall * 3 ≤ maxTypeNodes)
    (hbytes : tall * name.utf8ByteSize = maxNameBytes) :
    ∃ m, parse .core {} (Assembly.ofStatements (crowded name wide tall)).words = .ok m ∧
      ((∃ layout, m.variableLayout 6 = .ok layout) ∧
        ¬ m.HasVariableText 6 (m.variableText 6)) ∧
      (∃ layout, m.typeLayout 5 = .ok layout) ∧ ¬ m.HasText 5 (m.typeText 5) := by
  have hwideFew : wide < maxTypeNodes := by omega
  have htallFew : tall < maxTypeNodes := by omega
  obtain ⟨m, hparsed, hrecords⟩ := parse_crowded hclean hname hwideFew htallFew
  obtain ⟨hleaf, hwideKind, hpointer, hnamed, hstruct⟩ := kind_crowded hrecords
  have hvariable : m.variableAt? 6 = some ⟨6, 3, .uniform⟩ := by
    rw [hrecords.moduleVariable]
    rfl
  have hlast : m.Weightless 63 1 1 0 := .sampler hleaf 62
  refine ⟨m, hparsed, ?_, ?_⟩
  · have hwideStruct : m.Weightless maxLayoutDepth 2 (1 + wide * 1) (m.labelBytes 2) :=
      hlast.repeated hwideKind
    rw [labelBytes_crowded hrecords (by decide), Nat.mul_one, hwide] at hwideStruct
    obtain ⟨layout, hlayout⟩ := hwideStruct.layout
    have hlimits := hwideStruct.withinLimits (Nat.le_refl _) (Nat.zero_le _)
    refine ⟨⟨layout, variableLayout_eq_ok_iff.mpr ⟨2, pointee_eq_ok_iff.mpr ⟨_, _, hvariable,
      hpointer, hwideStruct.defined⟩, hlayout, hlimits⟩⟩, ?_⟩
    rw [hasVariableText_variableText_iff hvariable,
      hasText_typeText_iff (unfolds_pointer hpointer hlayout hlimits.shallow).2,
      (cost_pointer hpointer hlayout hlimits.shallow).1, hwideStruct.nodes]
    rintro ⟨hnodes, -⟩
    omega
  · have htallStruct : m.Weightless (maxLayoutDepth + 1) 5 (1 + tall * 3)
        (m.labelBytes 5 + tall * m.labelBytes 4) :=
      (hlast.repeated hnamed).repeated hstruct
    rw [labelBytes_crowded hrecords (by decide), labelBytes_crowded_named hrecords,
      Nat.zero_add, hbytes] at htallStruct
    obtain ⟨layout, hlayout⟩ := htallStruct.layout
    have hlimits := htallStruct.withinLimits htall (Nat.le_refl _)
    refine ⟨⟨layout, typeLayout_eq_ok_iff.mpr ⟨hlayout, hlimits⟩⟩, ?_⟩
    rw [hasText_typeText_iff (unfolds_type hlayout hlimits.shallow)]
    rintro ⟨-, -, hroom⟩
    have hcopied := (cost_steps hlayout hlimits.shallow).2
    rw [htallStruct.names] at hcopied
    have hsome : tall ≠ 0 := by
      rintro rfl
      simp [maxNameBytes] at hbytes
    obtain ⟨before, hbefore⟩ := steps_crowded hrecords hsome
    have hall : copied before = copied (steps m 5) := by
      rw [hbefore, copied_append]
      rfl
    have hless := hroom before [] hbefore
    omega

/-- A layout may succeed though the text that is shown is cut off. The pointer of the variable 6 is
a node too many beside the 8192 nodes of its pointee, and the names in the struct 5 have used up all
bytes when its last member is begun. -/
theorem layouts_without_complete_texts :
    let name := String.ofList (List.replicate 4096 'a')
    ∃ m, parse .core {} (Assembly.ofStatements (crowded name 8191 256)).words = .ok m ∧
      ((∃ layout, m.variableLayout 6 = .ok layout) ∧
        ¬ m.HasVariableText 6 (m.variableText 6)) ∧
      (∃ layout, m.typeLayout 5 = .ok layout) ∧ ¬ m.HasText 5 (m.typeText 5) := by
  intro name
  have hsize : name.utf8ByteSize = 4096 := by
    rw [← Utf8.length_toUTF8, Utf8.toUTF8_toList, String.toList_ofList, List.length_flatMap,
      List.map_replicate, List.sum_replicate]
    rfl
  have hclean : '\x00' ∉ name.toList := by
    rw [String.toList_ofList, List.mem_replicate]
    decide
  exact not_hasText_crowded hclean (by omega) rfl (by decide) (by rw [hsize]; rfl)

end Crowded

end ShaderModule

end ShaderReflection
