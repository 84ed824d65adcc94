import ShaderReflection.Proofs.Table
import ShaderReflection.ShaderModule

/-!
What a declaration does to the tables of a module. Which rule a table follows, that the last entry
under a key stays, the first one, or all of them in order, is shown for one declaration and then for
a sequence of them.
-/

namespace ShaderReflection

namespace Declaration

def named? : Declaration → Option (Ident × String)
  | .name target text => some (target, text)
  | _ => none

def memberNamed? : Declaration → Option ((Ident × Word) × String)
  | .memberName target member text => some ((target, member), text)
  | _ => none

def decorated? : Declaration → Option (Ident × Decoration)
  | .decorate target decoration => some (target, decoration)
  | _ => none

def typed? : Declaration → Option (Ident × TypeDef)
  | .type declared => some (declared.id, declared)
  | _ => none

def constant? : Declaration → Option (Ident × Constant)
  | .constant declared => some (declared.id, declared)
  | _ => none

def moduleVariable? : Declaration → Option (Ident × Variable)
  | .moduleVariable declared => some (declared.id, declared)
  | _ => none

def entryPoint? : Declaration → Option EntryPoint
  | .entryPoint entry => some entry
  | _ => none

end Declaration

namespace ShaderModule

/-- Only the table of variables and the list of uniform ones can change, and neither does for an id
that is taken. -/
theorem declareVariable_eq (m : ShaderModule) (declared : Variable) :
    m.declareVariable declared =
      { m with
        moduleVariables := m.moduleVariables.insertIfNew declared.id declared
        uniformVariables :=
          if (m.variableAt? declared.id).isNone && declared.storage.isUniform then
            m.uniformVariables.push declared.id
          else m.uniformVariables } := by
  unfold declareVariable variableAt?
  rw [Std.ExtTreeMap.contains_eq_isSome_getElem?]
  cases hold : m.moduleVariables[declared.id]? with
  | none =>
      have hinsert : m.moduleVariables.insert declared.id declared =
          m.moduleVariables.insertIfNew declared.id declared := by
        apply Std.ExtTreeMap.ext_getElem?
        intro id
        rw [getElem?_insert_entry, getElem?_insertIfNew_entry]
        by_cases hid : declared.id = id
        · simp [← hid, hold]
        · simp [hid]
      simp [hinsert]
  | some earlier =>
      have hinsert : m.moduleVariables.insertIfNew declared.id declared = m.moduleVariables := by
        apply Std.ExtTreeMap.ext_getElem?
        intro id
        rw [getElem?_insertIfNew_entry]
        by_cases hid : declared.id = id
        · simp [← hid, hold]
        · simp [hid]
      simp [hinsert]

theorem name?_declare (m : ShaderModule) (declaration : Declaration) (id : Ident) :
    (m.declare declaration).name? id =
      (lastUnder id declaration.named?.toList).or (m.name? id) := by
  cases declaration with
  | name target text =>
      have hname : (m.declare (.name target text)).name? id =
          if target = id then some text else m.name? id :=
        getElem?_insert_entry m.names target id text
      rw [hname, Declaration.named?, Option.toList_some, lastUnder_singleton]
      split_ifs <;> rfl
  | moduleVariable declared =>
      rw [declare, declareVariable_eq]
      rfl
  | _ => rfl

theorem memberName?_declare (m : ShaderModule) (declaration : Declaration)
    (key : Ident × Word) :
    (m.declare declaration).memberName? key.1 key.2 =
      (lastUnder key declaration.memberNamed?.toList).or (m.memberName? key.1 key.2) := by
  obtain ⟨id, member⟩ := key
  cases declaration with
  | memberName target index text =>
      rw [Declaration.memberNamed?, Option.toList_some, lastUnder_singleton]
      simp only [declare, memberName?, getElem?_alter_entry, Prod.mk.injEq]
      by_cases htarget : target = id
      · subst htarget
        by_cases hindex : index = member
        · simp [hindex]
        · cases m.memberNames[target]? <;> simp [getElem?_insert_entry, hindex]
      · simp [htarget]
  | moduleVariable declared =>
      rw [declare, declareVariable_eq]
      rfl
  | _ => rfl

theorem decorationsOf_declare (m : ShaderModule) (declaration : Declaration) (id : Ident) :
    (m.declare declaration).decorationsOf id =
      m.decorationsOf id ++ allUnder id declaration.decorated?.toList := by
  cases declaration with
  | decorate target decoration =>
      rw [Declaration.decorated?, Option.toList_some, allUnder_singleton]
      simp only [declare, decorationsOf, getElem?_alter_entry]
      split_ifs with htarget
      · simp
      · simp
  | moduleVariable declared =>
      rw [declare, declareVariable_eq]
      exact (List.append_nil _).symm
  | _ => exact (List.append_nil _).symm

theorem type?_declare (m : ShaderModule) (declaration : Declaration) (id : Ident) :
    (m.declare declaration).type? id =
      (m.type? id).or (firstUnder id declaration.typed?.toList) := by
  cases declaration with
  | type declared =>
      rw [Declaration.typed?, Option.toList_some, firstUnder_singleton]
      exact getElem?_insertIfNew_entry m.types declared.id id declared
  | moduleVariable declared =>
      rw [declare, declareVariable_eq]
      exact (Option.or_none).symm
  | _ => exact (Option.or_none).symm

theorem constant?_declare (m : ShaderModule) (declaration : Declaration) (id : Ident) :
    (m.declare declaration).constant? id =
      (lastUnder id declaration.constant?.toList).or (m.constant? id) := by
  cases declaration with
  | constant declared =>
      have hconstant : (m.declare (.constant declared)).constant? id =
          if declared.id = id then some declared else m.constant? id :=
        getElem?_insert_entry m.constants declared.id id declared
      rw [hconstant, Declaration.constant?, Option.toList_some, lastUnder_singleton]
      split_ifs <;> rfl
  | moduleVariable declared =>
      rw [declare, declareVariable_eq]
      rfl
  | _ => rfl

theorem variableAt?_declare (m : ShaderModule) (declaration : Declaration) (id : Ident) :
    (m.declare declaration).variableAt? id =
      (m.variableAt? id).or (firstUnder id declaration.moduleVariable?.toList) := by
  cases declaration with
  | moduleVariable declared =>
      rw [declare, declareVariable_eq, Declaration.moduleVariable?, Option.toList_some,
        firstUnder_singleton]
      exact getElem?_insertIfNew_entry m.moduleVariables declared.id id declared
  | _ => exact (Option.or_none).symm

theorem entryPoints_declare (m : ShaderModule) (declaration : Declaration) :
    (m.declare declaration).entryPoints.toList =
      m.entryPoints.toList ++ declaration.entryPoint?.toList := by
  cases declaration with
  | entryPoint entry => exact Array.toList_push
  | moduleVariable declared =>
      rw [declare, declareVariable_eq]
      exact (List.append_nil _).symm
  | _ => exact (List.append_nil _).symm

/-- A variable joins the uniform ones if its id is not taken and its class is uniform. -/
theorem uniformVariables_declare (m : ShaderModule) (declaration : Declaration) :
    (m.declare declaration).uniformVariables.toList =
      m.uniformVariables.toList ++
        ((declaration.moduleVariable?.toList.filter fun entry =>
          (m.variableAt? entry.1).isNone && entry.2.storage.isUniform).map (·.1)) := by
  cases declaration with
  | moduleVariable declared =>
      rw [declare, declareVariable_eq, Declaration.moduleVariable?, Option.toList_some]
      cases hjoins : (m.variableAt? declared.id).isNone && declared.storage.isUniform <;>
        simp [hjoins]
  | _ => exact (List.append_nil _).symm

/-- What every look-up in a module says about the declarations the module was made from. Names,
member names and constants are those declared last, types and variables those declared first, and
decorations and entry points are all there in order. -/
structure Records (m : ShaderModule) (declared : List Declaration) : Prop where
  name : ∀ id, m.name? id = lastUnder id (declared.filterMap Declaration.named?)
  memberName : ∀ id member,
    m.memberName? id member = lastUnder (id, member) (declared.filterMap Declaration.memberNamed?)
  decorations : ∀ id,
    m.decorationsOf id = allUnder id (declared.filterMap Declaration.decorated?)
  type : ∀ id, m.type? id = firstUnder id (declared.filterMap Declaration.typed?)
  constant : ∀ id, m.constant? id = lastUnder id (declared.filterMap Declaration.constant?)
  moduleVariable : ∀ id,
    m.variableAt? id = firstUnder id (declared.filterMap Declaration.moduleVariable?)
  entryPoints : m.entryPoints.toList = declared.filterMap Declaration.entryPoint?
  uniformVariables : m.uniformVariables.toList =
    ((firsts (declared.filterMap Declaration.moduleVariable?)).filter
      (·.2.storage.isUniform)).map (·.1)

theorem ofDeclarations_append (header : Header) (declared : List Declaration)
    (last : Declaration) :
    ofDeclarations header (declared ++ [last]) = (ofDeclarations header declared).declare last := by
  rw [ofDeclarations, List.foldl_append]
  rfl

theorem variableAt?_ofDeclarations (header : Header) (declared : List Declaration) (id : Ident) :
    (ofDeclarations header declared).variableAt? id =
      firstUnder id (declared.filterMap Declaration.moduleVariable?) :=
  foldl_firstUnder declare Declaration.moduleVariable? variableAt? variableAt?_declare
    (empty header) declared id

theorem entryPoints_ofDeclarations (header : Header) (declared : List Declaration) :
    (ofDeclarations header declared).entryPoints.toList =
      declared.filterMap Declaration.entryPoint? := by
  induction declared using List.reverseRecOn with
  | nil => rfl
  | append_singleton declared last ih =>
      rw [ofDeclarations_append, entryPoints_declare, ih, List.filterMap_append,
        filterMap_cons_eq, List.filterMap_nil, List.append_nil]

/-- The uniform variables are those of a uniform class among the first ones under their ids: a
variable whose id is taken joins neither the table nor the list. -/
theorem uniformVariables_ofDeclarations (header : Header) (declared : List Declaration) :
    (ofDeclarations header declared).uniformVariables.toList =
      ((firsts (declared.filterMap Declaration.moduleVariable?)).filter
        (·.2.storage.isUniform)).map (·.1) := by
  induction declared using List.reverseRecOn with
  | nil => rfl
  | append_singleton declared last ih =>
      have hlast : [last].filterMap Declaration.moduleVariable? = last.moduleVariable?.toList := by
        rw [filterMap_cons_eq, List.filterMap_nil, List.append_nil]
      rw [ofDeclarations_append, uniformVariables_declare, ih, List.filterMap_append, hlast]
      cases last.moduleVariable? with
      | none => simp
      | some entry =>
          rw [Option.toList_some, firsts_append_singleton, List.filter_append, List.map_append,
            List.filter_filter]
          simp only [variableAt?_ofDeclarations, Bool.and_comm]

theorem ofDeclarations_records (header : Header) (declared : List Declaration) :
    (ofDeclarations header declared).Records declared where
  name id :=
    (foldl_lastUnder declare Declaration.named? name? name?_declare (empty header) declared
      id).trans Option.or_none
  memberName id member :=
    (foldl_lastUnder declare Declaration.memberNamed? (fun m key => m.memberName? key.1 key.2)
      memberName?_declare (empty header) declared (id, member)).trans Option.or_none
  decorations :=
    foldl_allUnder declare Declaration.decorated? decorationsOf decorationsOf_declare
      (empty header) declared
  type := foldl_firstUnder declare Declaration.typed? type? type?_declare (empty header) declared
  constant id :=
    (foldl_lastUnder declare Declaration.constant? constant? constant?_declare (empty header)
      declared id).trans Option.or_none
  moduleVariable := variableAt?_ofDeclarations header declared
  entryPoints := entryPoints_ofDeclarations header declared
  uniformVariables := uniformVariables_ofDeclarations header declared

end ShaderModule

end ShaderReflection
