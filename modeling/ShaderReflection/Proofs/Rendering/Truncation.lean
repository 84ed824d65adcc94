import ShaderReflection.Proofs.Rendering.Reference

/-!
Where a rendering is cut off. If the budget refuses a step, the dots stand where the text of some
type should begin, and no text of a type begins with a dot. So a text that was cut off can be told
from the one without a budget.
-/

namespace ShaderReflection.Rendering

/-- Whether a text begins, and with something other than a dot. -/
def Begins (text : String) : Prop :=
  ∃ first rest, first ≠ '.' ∧ text.toList = first :: rest

theorem begins_iff {text : String} :
    Begins text ↔ (text.toList.head?.any (· != '.')) = true := by
  unfold Begins
  cases text.toList <;> simp

instance (text : String) : Decidable (Begins text) := decidable_of_iff _ begins_iff.symm

/-- Whether a text has a dot where another one first differs from it. -/
def Cut (shown full : String) : Prop :=
  ∃ common first rest rest', first ≠ '.' ∧ shown.toList = common ++ '.' :: rest ∧
    full.toList = common ++ first :: rest'

section Texts

variable {shown full : String}

theorem Cut.ne (h : Cut shown full) : shown ≠ full := by
  rintro rfl
  obtain ⟨common, first, rest, rest', hfirst, hshown, hfull⟩ := h
  rw [hshown, List.append_cancel_left_eq] at hfull
  exact hfirst (List.cons.inj hfull).1.symm

theorem Cut.prepend (h : Cut shown full) (before : String) :
    Cut (before ++ shown) (before ++ full) := by
  obtain ⟨common, first, rest, rest', hfirst, hshown, hfull⟩ := h
  refine ⟨before.toList ++ common, first, rest, rest', hfirst, ?_, ?_⟩
  · rw [String.toList_append, hshown, List.append_assoc]
  · rw [String.toList_append, hfull, List.append_assoc]

/-- What follows two texts does not matter once they differ. -/
theorem Cut.append (h : Cut shown full) (after after' : String) :
    Cut (shown ++ after) (full ++ after') := by
  obtain ⟨common, first, rest, rest', hfirst, hshown, hfull⟩ := h
  refine ⟨common, first, rest ++ after.toList, rest' ++ after'.toList, hfirst, ?_, ?_⟩
  · rw [String.toList_append, hshown, List.append_assoc, List.cons_append]
  · rw [String.toList_append, hfull, List.append_assoc, List.cons_append]

theorem Begins.cut_ellipsis (h : Begins full) : Cut ellipsis full := by
  obtain ⟨first, rest, hfirst, hfull⟩ := h
  exact ⟨[], first, ['.', '.'], rest, hfirst, rfl, hfull⟩

theorem Begins.append (h : Begins full) (after : String) : Begins (full ++ after) := by
  obtain ⟨first, rest, hfirst, hfull⟩ := h
  refine ⟨first, rest ++ after.toList, hfirst, ?_⟩
  rw [String.toList_append, hfull, List.cons_append]

theorem Begins.labelled (h : Begins full) (name : String) : Begins (labelled full name) := by
  unfold Rendering.labelled
  split_ifs
  · exact h
  · exact (h.append " ").append name

/-- Whether two lists of texts are the same up to a text that is cut off. -/
def CutList (shown full : List String) : Prop :=
  ∃ common text text' rest rest', Cut text text' ∧ shown = common ++ text :: rest ∧
    full = common ++ text' :: rest'

theorem CutList.head {text text' : String} (h : Cut text text') (rest rest' : List String) :
    CutList (text :: rest) (text' :: rest') :=
  ⟨[], text, text', rest, rest', h, rfl, rfl⟩

theorem CutList.cons {shown full : List String} (h : CutList shown full) (text : String) :
    CutList (text :: shown) (text :: full) := by
  obtain ⟨common, other, other', rest, rest', hcut, rfl, rfl⟩ := h
  exact ⟨text :: common, other, other', rest, rest', hcut, rfl, rfl⟩

theorem exists_intercalate_cons (separator text : String) (rest : List String) :
    ∃ after, separator.intercalate (text :: rest) = text ++ after := by
  cases rest with
  | nil => exact ⟨"", by rw [String.intercalate_singleton, String.append_empty]⟩
  | cons next rest =>
      exact ⟨separator ++ separator.intercalate (next :: rest),
        by rw [String.intercalate_cons_cons, String.append_assoc]⟩

theorem CutList.intercalate {shown full : List String} (h : CutList shown full)
    (separator : String) :
    Cut (separator.intercalate shown) (separator.intercalate full) := by
  obtain ⟨common, text, text', rest, rest', hcut, rfl, rfl⟩ := h
  induction common with
  | nil =>
      obtain ⟨after, hafter⟩ := exists_intercalate_cons separator text rest
      obtain ⟨after', hafter'⟩ := exists_intercalate_cons separator text' rest'
      rw [List.nil_append, List.nil_append, hafter, hafter']
      exact hcut.append after after'
  | cons first common ih =>
      rw [List.cons_append, List.cons_append, String.intercalate_cons_of_ne_nil (by simp),
        String.intercalate_cons_of_ne_nil (by simp)]
      exact ih.prepend (first ++ separator)

end Texts

section Runs

variable {m : ShaderModule} {budget : Budget} {print : Ident → Session String}
  {textOf : Ident → String} {insideOf : Ident → List Step}

theorem foldlM_take_cons_eq_none_iff {step : Step} {rest : List Step} :
    (step :: rest).foldlM Step.take budget = none ↔
      ∀ between, step.take budget = some between → rest.foldlM Step.take between = none := by
  rw [List.foldlM_cons]
  exact Option.bind_eq_none_iff

theorem foldlM_take_append_eq_none_iff {first second : List Step} :
    (first ++ second).foldlM Step.take budget = none ↔
      ∀ between, first.foldlM Step.take budget = some between →
        second.foldlM Step.take between = none := by
  rw [List.foldlM_append]
  exact Option.bind_eq_none_iff

theorem reverse_append_cons (text : String) (done shown : List String) :
    (text :: done).reverse ++ shown = done.reverse ++ text :: shown := by
  rw [List.reverse_cons, List.append_assoc, List.singleton_append]

/-- What has been printed of the members of a struct is kept. -/
theorem run_members_prefix (print : Ident → Session String) (id : Ident) (members : List Ident)
    (place : Nat) (done : List String) (budget : Budget) :
    ∃ shown, ((Rendering.members m print id place done members).run budget).run.1 =
      done.reverse ++ shown := by
  induction members generalizing place done budget with
  | nil => exact ⟨[], (List.append_nil _).symm⟩
  | cons member rest ih =>
      have hellipsis : (ellipsis :: done).reverse = done.reverse ++ [ellipsis] :=
        List.reverse_cons
      have hlater : ∀ text printed, ∃ shown,
          ((Rendering.members m print id (place + 1) (text :: done) rest).run printed).run.1 =
            done.reverse ++ shown := by
        intro text printed
        obtain ⟨shown, hshown⟩ := ih (place + 1) (text :: done) printed
        exact ⟨text :: shown, hshown.trans (reverse_append_cons _ _ _)⟩
      rw [run_members_cons]
      simp only
      split_ifs
      · exact ⟨[ellipsis], hellipsis⟩
      · exact hlater _ _
      · exact ⟨[ellipsis], hellipsis⟩
      · exact hlater _ _

/-- Whether the texts `done` are followed by ones that are the same as others up to a text that is
cut off. -/
def ShowsCut (outcome done full : List String) : Prop :=
  ∃ shown, outcome = done.reverse ++ shown ∧ CutList shown full

theorem ShowsCut.cons {outcome done full : List String} {text : String}
    (h : ShowsCut outcome (text :: done) full) : ShowsCut outcome done (text :: full) := by
  obtain ⟨shown, rfl, hcut⟩ := h
  exact ⟨text :: shown, reverse_append_cons _ _ _, hcut.cons text⟩

theorem showsCut_ellipsis {text : String} (h : Begins text) (done rest : List String) :
    ShowsCut (ellipsis :: done).reverse done (text :: rest) :=
  ⟨[ellipsis], List.reverse_cons, .head h.cut_ellipsis _ _⟩

theorem showsCut_members {text text' : String} (h : Cut text text') (id : Ident) (place : Nat)
    (done : List String) (rest : List Ident) (budget : Budget) (texts : List String) :
    ShowsCut ((members m print id place (text :: done) rest).run budget).run.1 done
      (text' :: texts) := by
  obtain ⟨shown, hshown⟩ := run_members_prefix (m := m) print id rest place (text :: done) budget
  exact ⟨text :: shown, hshown.trans (reverse_append_cons _ _ _), .head h _ _⟩

/-- Whether the text of a type is cut off if the budget refuses one of given steps. -/
def Cuts (print : Ident → Session String) (textOf : Ident → String)
    (insideOf : Ident → List Step) (part : Ident) : Prop :=
  Begins (textOf part) ∧ ∀ budget, (Step.visit :: insideOf part).foldlM Step.take budget = none →
    Cut ((print part).run budget).run.1 (textOf part)

/-- A member whose type is cut off ends the texts that are the same, whatever is printed of it and
of the members after it. -/
theorem run_member_cut {id member : Ident} {rest : List Ident} {place : Nat} {done : List String}
    {type : String} {printed : Budget} (hbegins : Begins (textOf member))
    (hrun : (print member).run budget = pure (type, printed)) (htype : Cut type (textOf member))
    (hexhausted : ¬ budget.isExhausted) :
    ShowsCut ((members m print id place done (member :: rest)).run budget).run.1 done
      (memberTexts m textOf id place (member :: rest)) := by
  have hmissing := hbegins.labelled (m.memberLabel id place)
  rw [run_members_cons, if_neg hexhausted, hrun, memberTexts]
  unfold labelled at hmissing ⊢
  simp only [Id.run_pure]
  split_ifs at hmissing ⊢ with hempty hover
  · exact showsCut_members htype id _ done rest printed _
  · exact showsCut_ellipsis hmissing done _
  · exact showsCut_members ((htype.append " " " ").append _ _) id _ done rest _ _

/-- The members of a struct are printed up to the one at which the budget refuses a step. There the
type is cut off, or an ellipsis stands for the member. -/
theorem run_members_cut (hprint : Prints print textOf insideOf) (id : Ident)
    {members : List Ident} (hcuts : ∀ part ∈ members, Cuts print textOf insideOf part)
    {place : Nat} {done : List String}
    (hrefuses : (memberSteps m insideOf id place members).foldlM Step.take budget = none) :
    ShowsCut ((Rendering.members m print id place done members).run budget).run.1 done
      (memberTexts m textOf id place members) := by
  induction members generalizing place done budget with
  | nil => cases hrefuses
  | cons member rest ih =>
      rw [List.forall_mem_cons] at hcuts
      obtain ⟨⟨hbegins, hcut⟩, hcuts⟩ := hcuts
      have hmissing := hbegins.labelled (m.memberLabel id place)
      by_cases hexhausted : budget.isExhausted
      · rw [run_members_cons, if_pos hexhausted]
        exact showsCut_ellipsis hmissing done _
      have hvisit : Step.take budget .visit = some budget.visit :=
        take_visit_eq_some_iff.mpr ⟨not_overNodes_of_not_isExhausted hexhausted, rfl⟩
      -- Either a step inside this member's type is refused, or its name's, or a later one.
      cases hinside : (insideOf member).foldlM Step.take budget.visit with
      | none =>
          have hrefused : (Step.visit :: insideOf member).foldlM Step.take budget = none := by
            rw [foldlM_take_cons_eq_none_iff, hvisit]
            rintro _ ⟨⟩
            exact hinside
          exact run_member_cut hbegins rfl (hcut budget hrefused) hexhausted
      | some printed =>
          have hrun := hprint member budget printed
            (foldlM_take_cons_eq_some_iff.mpr ⟨_, hvisit, hinside⟩)
          have hnames := foldlM_take_append_eq_none_iff.mp (foldlM_take_cons_eq_none_iff.mp hrefuses
            _ (take_member_eq_some_iff.mpr ⟨hexhausted, rfl⟩)) _ hinside
          rw [nameSteps, foldlM_take_append_eq_none_iff] at hnames
          rw [run_members_cons, if_neg hexhausted, hrun, memberTexts]
          unfold labelled at hmissing ⊢
          simp only [Id.run_pure]
          split_ifs at hnames hmissing ⊢ with hempty hover
          · exact (ih hcuts (hnames _ rfl)).cons
          · exact showsCut_ellipsis hmissing done _
          · have hcopied := take_name_eq_some_iff.mpr ⟨hover, rfl⟩
            exact (ih hcuts (hnames _ (foldlM_take_cons_eq_some_iff.mpr ⟨_, hcopied, rfl⟩))).cons

theorem run_ofKind_cut (hprint : Prints print textOf insideOf) (id : Ident) {kind : TypeKind}
    (hcuts : ∀ part ∈ kind.mentioned, Cuts print textOf insideOf part)
    (hrefuses : (frameSteps m insideOf id kind).foldlM Step.take budget = none) :
    Cut ((ofKind m print id kind).run budget).run.1 (frame m textOf id kind) := by
  have hpart : ∀ part, part ∈ kind.mentioned →
      (Step.visit :: insideOf part).foldlM Step.take budget = none →
        Cut ((print part).run budget).run.1 (textOf part) :=
    fun part hpart => (hcuts part hpart).2 budget
  cases kind with
  | void | bool | int | float | image | sampler => cases hrefuses
  | pointer _ part => exact (hpart part (List.mem_singleton_self _) hrefuses).prepend _
  | vector part count =>
      have hcut := (hpart part (List.mem_singleton_self _) hrefuses).prepend "vec<"
      exact ((hcut.append ", " ", ").append _ _).append ">" ">"
  | array part length =>
      have hcut := (hpart part (List.mem_singleton_self _) hrefuses).append "[" "["
      exact (hcut.append _ _).append "]" "]"
  | matrix part columns =>
      have hcut := (hpart part (List.mem_singleton_self _) hrefuses).prepend "mat<"
      exact ((hcut.append ", " ", ").append _ _).append ">" ">"
  | sampledImage part =>
      have hcut := (hpart part (List.mem_singleton_self _) hrefuses).prepend "SampledImage<"
      exact hcut.append ">" ">"
  | struct ids =>
      obtain ⟨shown, hshown, hcutList⟩ : ShowsCut ((members m print id 0 [] ids).run budget).run.1
          [] (memberTexts m textOf id 0 ids) :=
        run_members_cut hprint id hcuts hrefuses
      have hcut := ((hcutList.intercalate ",").prepend "\x7b ").append " \x7d" " \x7d"
      rw [List.reverse_nil, List.nil_append] at hshown
      rw [← hshown] at hcut
      exact hcut

end Runs

section Renderings

variable {m : ShaderModule}

/-- Whether the tree of a type, below the types `path`, ends above a number of levels without any
type below itself. -/
def Unfolds (m : ShaderModule) : (levels : Nat) → (path : List Ident) → Ident → Prop
  | 0, _, _ => False
  | levels + 1, path, id =>
      id ∉ path ∧ ∀ kind, m.kind? id = some kind → ∀ part ∈ kind.mentioned,
        Unfolds m levels (id :: path) part

theorem begins_frame {textOf : Ident → String} (id : Ident) {kind : TypeKind}
    (hparts : ∀ part ∈ kind.mentioned, Begins (textOf part)) :
    Begins (frame m textOf id kind) := by
  have hliteral : ∀ literal, Begins literal → ∀ text, Begins (literal ++ text) :=
    fun _ hbegins text => hbegins.append text
  cases kind with
  | void => exact (by decide : Begins "Void")
  | bool => exact (by decide : Begins "Bool")
  | sampler => exact (by decide : Begins "Sampler")
  | int width signed => cases signed <;> exact (hliteral _ (by decide) _)
  | float width => exact hliteral "Float" (by decide) _
  | image type => exact (hliteral "Image" (by decide) _).append _
  | pointer storage part => exact hliteral "*" (by decide) _
  | vector part count =>
      exact (((hliteral "vec<" (by decide) _).append _).append _).append _
  | matrix part columns =>
      exact (((hliteral "mat<" (by decide) _).append _).append _).append _
  | array part length =>
      exact (((hparts part (List.mem_singleton_self _)).append _).append _).append _
  | sampledImage part => exact (hliteral "SampledImage<" (by decide) _).append _
  | struct ids => exact (hliteral "\x7b " (by decide) _).append _

theorem begins_reference {levels : Nat} {path : List Ident} {id : Ident}
    (h : Unfolds m levels path id) : Begins (reference m levels path id) := by
  induction levels generalizing path id with
  | zero => exact h.elim
  | succ levels ih =>
      obtain ⟨hpath, hparts⟩ := h
      rw [reference, if_neg (by simpa using hpath)]
      cases hkind : m.kind? id with
      | none => exact (by decide : Begins "<unknown type>")
      | some kind => exact begins_frame id fun part hpart => ih (hparts kind hkind part hpart)

/-- If the budget refuses a step, the text of a type that unfolds is cut off. -/
theorem run_render_cut {levels : Nat} {path : List Ident} {id : Ident}
    (h : Unfolds m levels path id) {budget : Budget}
    (hrefuses : (Step.visit :: inside m levels path id).foldlM Step.take budget = none) :
    Cut ((render m levels path id : Session String).run budget).run.1
      (reference m levels path id) := by
  induction levels generalizing path id budget with
  | zero => exact h.elim
  | succ levels ih =>
      rw [render, StateT.run_bind, run_enter]
      by_cases hover : budget.visit.overNodes
      · rw [if_pos hover]
        exact (begins_reference h).cut_ellipsis
      · have hinside := foldlM_take_cons_eq_none_iff.mp hrefuses _
          (take_visit_eq_some_iff.mpr ⟨hover, rfl⟩)
        obtain ⟨hpath, hparts⟩ := h
        have hcycle : ¬ path.contains id := by simpa using hpath
        rw [if_neg hover, if_neg hcycle, pure_bind, reference, if_neg hcycle]
        rw [inside, if_neg hcycle] at hinside
        cases hkind : m.kind? id with
        | none =>
            rw [hkind] at hinside
            cases hinside
        | some kind =>
            rw [hkind] at hinside
            have hprint : Prints (render m levels (id :: path)) (reference m levels (id :: path))
                (inside m levels (id :: path)) := fun part budget budget' hpart => run_render hpart
            refine run_ofKind_cut hprint id (fun part hpart => ?_) hinside
            have hunfolds := hparts kind hkind part hpart
            exact ⟨begins_reference hunfolds, fun budget => ih hunfolds⟩

end Renderings

end ShaderReflection.Rendering
