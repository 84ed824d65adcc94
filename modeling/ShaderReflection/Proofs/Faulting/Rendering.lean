import ShaderReflection.Proofs.Faulting.Counting
import ShaderReflection.Proofs.Rendering.Reference

/-!
Counting in 32 bits while types are rendered. A rendering goes on after a limit is passed, but only
to close the types that it is inside of, and each of these takes at most one more name.
-/

namespace ShaderReflection.Faulting

/-- A rendering within the budget of one question. -/
abbrev Session := StateT Budget (Faulting Empty)

/-- The text of a type. -/
def typeText (m : ShaderModule) (id : Ident) : Faulting Empty String :=
  (Rendering.render m (maxLayoutDepth + 1) [] id : Session String).run' {}

/-- Whether a budget is past its limits by at most a visit and some names. -/
def Near (names : Nat) (budget : Budget) : Prop :=
  budget.visited ≤ maxTypeNodes + 1 ∧ budget.nameBytes ≤ maxNameBytes + names * longestText

/-- Whether counting in 32 bits makes no difference to a rendering that begins with a budget of a
kind, and what is known of the budget that the rendering ends with. -/
def Renders {α : Type} (before : Budget → Prop) (after : α → Budget → Prop) (counted : Session α)
    (session : Rendering.Session α) : Prop :=
  ∀ budget, before budget →
    counted.run budget = total (.ok (session.run budget).run) ∧
      after (session.run budget).run.1 (session.run budget).run.2

section Steps

variable {α β : Type} {before : Budget → Prop} {between : α → Budget → Prop}
  {after : β → Budget → Prop} {names : Nat}

theorem renders_pure {value : β} (h : ∀ budget, before budget → after value budget) :
    Renders before after (pure value) (pure value) :=
  fun budget hbefore => ⟨rfl, h budget hbefore⟩

theorem Renders.of_imp {stronger : Budget → Prop} {counted : Session β}
    {session : Rendering.Session β} (h : Renders before after counted session)
    (himp : ∀ budget, stronger budget → before budget) : Renders stronger after counted session :=
  fun budget hstronger => h budget (himp budget hstronger)

theorem Renders.bind {counted : Session α} {session : Rendering.Session α}
    {next : α → Session β} {next' : α → Rendering.Session β}
    (h : Renders before between counted session)
    (hnext : ∀ value, Renders (between value) after (next value) (next' value)) :
    Renders before after (counted >>= next) (session >>= next') := by
  intro budget hbefore
  obtain ⟨hsame, hbetween⟩ := h budget hbefore
  obtain ⟨hsame', hafter⟩ := hnext _ _ hbetween
  refine ⟨?_, hafter⟩
  rw [StateT.run_bind, hsame]
  exact hsame'

theorem renders_test {test : Budget → Bool} {yes no : Session β}
    {yes' no' : Rendering.Session β}
    (hyes : Renders before after yes yes')
    (hno : Renders (fun budget => before budget ∧ ¬ test budget) after no no') :
    Renders before after (do if test (← get) then yes else no)
      (do if test (← get) then yes' else no') := by
  intro budget hbefore
  simp only [StateT.run_bind, StateT.run_get, pure_bind]
  by_cases htest : test budget
  · rw [if_pos htest, if_pos htest]
    exact hyes budget hbefore
  · rw [if_neg htest, if_neg htest]
    exact hno budget ⟨hbefore, htest⟩

theorem Near.of_within {budget : Budget} (h : budget.Within) : Near names budget :=
  ⟨Nat.le_succ_of_le h.1, Nat.le_trans h.2 (Nat.le_add_right _ _)⟩

theorem Near.succ {budget : Budget} (h : Near names budget) : Near (names + 1) budget :=
  ⟨h.1, Nat.le_trans h.2 (by rw [Nat.succ_mul]; omega)⟩

theorem within_of_not_isExhausted {budget : Budget} (h : ¬ budget.isExhausted) : budget.Within := by
  simp only [Budget.isExhausted, Bool.or_eq_true, decide_eq_true_eq, not_or, Nat.not_le] at h
  exact ⟨Nat.le_of_lt h.1, Nat.le_of_lt h.2⟩

theorem renders_enter (names : Nat) (path : List Ident) (id : Ident) :
    Renders Budget.Within
      (fun text budget => Near names budget ∧ (text = none → budget.Within))
      (Rendering.enter path id) (Rendering.enter path id) := by
  intro budget hwithin
  have hnear : Near names budget.visit :=
    ⟨Nat.succ_le_succ hwithin.1, Nat.le_trans hwithin.2 (Nat.le_add_right _ _)⟩
  rw [Rendering.run_enter_of_visit (charging_visit_eq hwithin), Rendering.run_enter]
  refine ⟨rfl, hnear, fun htext => ?_⟩
  simp only [Id.run_pure] at htext ⊢
  refine ⟨Budget.not_overNodes_iff.mp fun hover => ?_, hwithin.2⟩
  rw [if_pos hover] at htext
  cases htext

theorem renders_takeName (hfew : names ≤ maxLayoutDepth) {name : String}
    (hname : name.utf8ByteSize ≤ longestText) :
    Renders (Near names) (fun _ => Near (names + 1)) (Rendering.takeName name)
      (Rendering.takeName name) := by
  intro budget hnear
  have hbytes : budget.nameBytes + name.utf8ByteSize ≤
      maxNameBytes + (names + 1) * longestText := by
    have hbefore := hnear.2
    rw [Nat.succ_mul]
    omega
  have hfits : budget.nameBytes + name.utf8ByteSize < 4294967296 := by
    have hall := Nat.mul_le_mul_right longestText (Nat.succ_le_succ hfew)
    simp only [maxNameBytes, maxLayoutDepth, longestText] at hbytes hall
    omega
  refine ⟨?_, hnear.1, hbytes⟩
  change (Charging.copyName budget name >>= fun _ => _) = _
  rw [charging_copyName_eq hfits]
  rfl

end Steps

section Texts

variable {m : ShaderModule} {names : Nat}

/-- The members of a struct take one name more than their types may, since a name is taken without
asking after the type before it has been printed. -/
theorem renders_members (hnames : m.ShortNames) (hfew : names ≤ maxLayoutDepth)
    {print : Ident → Session String} {print' : Ident → Rendering.Session String}
    (hprint : ∀ id, Renders Budget.Within (fun _ => Near names) (print id) (print' id))
    (id : Ident) (ids : List Ident) (index : Nat) (done : List String) :
    Renders (Near (names + 1)) (fun _ => Near (names + 1))
      (Rendering.members m print id index done ids)
      (Rendering.members m print' id index done ids) := by
  induction ids generalizing index done with
  | nil => exact renders_pure fun _ hnear => hnear
  | cons member rest ih =>
      rw [Rendering.members, Rendering.members]
      refine renders_test (renders_pure fun _ hnear => hnear) ?_
      have hprinted := (hprint member).of_imp fun budget (h : Near (names + 1) budget ∧ _) =>
        within_of_not_isExhausted h.2
      refine hprinted.bind fun type => ?_
      have hname : ((m.memberName? id index.toUInt32).getD "").utf8ByteSize ≤ longestText := by
        cases hname : m.memberName? id index.toUInt32 with
        | none => exact Nat.zero_le _
        | some name => exact hnames _ _ _ hname
      dsimp only
      split_ifs with hempty
      · exact (ih _ _).of_imp fun _ => Near.succ
      · refine (renders_takeName hfew hname).bind fun _ => ?_
        exact renders_test (renders_pure fun _ hnear => hnear) ((ih _ _).of_imp fun _ => And.left)

theorem renders_ofKind (hnames : m.ShortNames) (hfew : names ≤ maxLayoutDepth)
    {print : Ident → Session String} {print' : Ident → Rendering.Session String}
    (hprint : ∀ id, Renders Budget.Within (fun _ => Near names) (print id) (print' id))
    (id : Ident) (kind : TypeKind) :
    Renders Budget.Within (fun _ => Near (names + 1)) (Rendering.ofKind m print id kind)
      (Rendering.ofKind m print' id kind) := by
  have hpure : ∀ text : String, Renders Budget.Within (fun _ => Near (names + 1)) (pure text)
      (pure text) := fun _ => renders_pure fun _ => Near.of_within
  have hpart : ∀ (part : Ident) (change : String → String),
      Renders Budget.Within (fun _ => Near (names + 1)) (do return change (← print part))
        (do return change (← print' part)) :=
    fun part _ => (hprint part).bind fun _ => renders_pure fun _ => Near.succ
  cases kind with
  | void | bool | int | float | image | sampler => exact hpure _
  | vector part | array part | matrix part | sampledImage part => exact hpart part _
  | pointer _ part => exact hpart part _
  | struct ids =>
      have hmembers := renders_members hnames hfew hprint id ids 0 []
      have hfresh := hmembers.of_imp fun budget (h : budget.Within) => Near.of_within h
      exact hfresh.bind fun _ => renders_pure fun _ hnear => hnear

theorem renders_render (hnames : m.ShortNames) {levels : Nat} (hfew : levels ≤ maxLayoutDepth + 1)
    (path : List Ident) (id : Ident) :
    Renders Budget.Within (fun _ => Near levels) (Rendering.render m levels path id)
      (Rendering.render m levels path id) := by
  induction levels generalizing path id with
  | zero =>
      exact (renders_enter 0 path id).bind fun _ => renders_pure fun _ => And.left
  | succ levels ih =>
      have hlevels := Nat.le_of_succ_le_succ hfew
      refine (renders_enter (levels + 1) path id).bind fun text => ?_
      cases text with
      | some text => exact renders_pure fun _ => And.left
      | none =>
          dsimp only
          cases m.kind? id with
          | none => exact renders_pure fun _ => And.left
          | some kind =>
              have hprint := ih (Nat.le_succ_of_le hlevels) (id :: path)
              exact (renders_ofKind hnames hlevels hprint id kind).of_imp fun _ h => h.2 rfl

theorem typeText_eq (hnames : m.ShortNames) (id : Ident) :
    typeText m id = total (.ok (m.typeText id)) := by
  have hfresh : Budget.Within {} := ⟨Nat.zero_le _, Nat.zero_le _⟩
  obtain ⟨hsame, -⟩ := renders_render hnames (Nat.le_refl _) [] id {} hfresh
  change Prod.fst <$> (Rendering.render m (maxLayoutDepth + 1) [] id : Session String).run {} = _
  rw [hsame]
  rfl

end Texts

end ShaderReflection.Faulting
