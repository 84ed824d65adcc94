import ShaderReflection.Assembly
import ShaderReflection.NameTable.Core
import ShaderReflection.Proofs.Rendering.Cost
import ShaderReflection.ShaderModule.Parse

/-!
Renderings without a budget, as a recursion over the types that are being rendered. Its calls and
the names it prints are counted along the way, and while both counts keep within the limits, the
text that is shown is the one without a budget.
-/

namespace ShaderReflection

namespace Rendering

/-- The text of a type without a budget, how many calls the rendering makes, and how many bytes of
member names it prints. -/
structure Evaluation where
  text : String
  calls : Nat
  nameBytes : Nat
  deriving DecidableEq, Repr

/-- The rendering of a type below the types `path`, which are being rendered, innermost first. A
type that is among them is a cycle, and none is looked into below more than `maxLayoutDepth` of
them. -/
def evaluate (m : ShaderModule) (path : List Ident) (id : Ident) : Evaluation :=
  if path.contains id then ⟨s!"<cycle %{id}>", 1, 0⟩
  else if maxLayoutDepth < path.length then ⟨ellipsis, 1, 0⟩
  else
    match m.kind? id with
    | none => ⟨"<unknown type>", 1, 0⟩
    | some kind =>
      { text := frame m (fun part => (evaluate m (id :: path) part).text) id kind
        calls := 1 + (kind.mentioned.map fun part => (evaluate m (id :: path) part).calls).sum
        nameBytes := m.labelBytes id +
          (kind.mentioned.map fun part => (evaluate m (id :: path) part).nameBytes).sum }
termination_by maxLayoutDepth + 1 - path.length

variable {m : ShaderModule} {path : List Ident} {id : Ident}

theorem evaluate_of_mem (hcycle : path.contains id) :
    evaluate m path id = ⟨s!"<cycle %{id}>", 1, 0⟩ := by
  rw [evaluate, if_pos hcycle]

theorem evaluate_of_long (hnew : ¬ path.contains id) (hlong : maxLayoutDepth < path.length) :
    evaluate m path id = ⟨ellipsis, 1, 0⟩ := by
  rw [evaluate, if_neg hnew, if_pos hlong]

/-- The levels that are left for a type decide the same as the length of the path above it. -/
theorem evaluate_eq {levels : Nat} (hlevels : path.length + levels = maxLayoutDepth + 1) :
    evaluate m path id =
      ⟨reference m levels path id, 1 + visits (inside m levels path id),
        copied (inside m levels path id)⟩ := by
  induction levels generalizing path id with
  | zero =>
      by_cases hcycle : path.contains id
      · rw [evaluate_of_mem hcycle, reference, if_pos hcycle]
        rfl
      · rw [evaluate_of_long hcycle (by omega), reference, if_neg hcycle]
        rfl
  | succ levels ih =>
      by_cases hcycle : path.contains id
      · rw [evaluate_of_mem hcycle, reference, inside, if_pos hcycle, if_pos hcycle]
        rfl
      · have hparts : ∀ part, evaluate m (id :: path) part =
            ⟨reference m levels (id :: path) part, 1 + visits (inside m levels (id :: path) part),
              copied (inside m levels (id :: path) part)⟩ := by
          intro part
          apply ih
          rw [List.length_cons]
          omega
        rw [evaluate, if_neg hcycle, if_neg (by omega), reference, inside, if_neg hcycle,
          if_neg hcycle]
        cases hkind : m.kind? id with
        | none => rfl
        | some kind =>
            simp only [hparts, visits_frameSteps, copied_frameSteps hkind, Nat.add_comm]

/-- The steps of a rendering keep within the limits if the calls and the names without a budget do,
with a byte to spare for the names. -/
theorem allowed_of_evaluate (hcalls : (evaluate m [] id).calls ≤ maxTypeNodes)
    (hnames : (evaluate m [] id).nameBytes < maxNameBytes) :
    ∃ budget, (steps m id).foldlM Step.take {} = some budget := by
  rw [evaluate_eq (Nat.zero_add _)] at hcalls hnames
  have hvisits : visits (steps m id) = 1 + visits (inside m (maxLayoutDepth + 1) [] id) := rfl
  have hcopied : copied (steps m id) = copied (inside m (maxLayoutDepth + 1) [] id) :=
    Nat.zero_add _
  rw [allowed_iff, hvisits, hcopied]
  refine ⟨hcalls, Nat.le_of_lt hnames, ?_⟩
  intro before after hsteps
  have hbefore := congrArg copied hsteps
  rw [copied_append, hcopied] at hbefore
  change copied (inside m (maxLayoutDepth + 1) [] id) < maxNameBytes at hnames
  omega

end Rendering

namespace ShaderModule

open Rendering

/-- A type is shown as it is rendered without a budget if that takes few enough calls, and the names
that it prints leave a byte of the limit unused. -/
theorem typeText_eq_evaluate (m : ShaderModule) (id : Ident)
    (hcalls : (evaluate m [] id).calls ≤ maxTypeNodes)
    (hnames : (evaluate m [] id).nameBytes < maxNameBytes) :
    m.typeText id = (evaluate m [] id).text := by
  obtain ⟨budget, hallowed⟩ := allowed_of_evaluate hcalls hnames
  have hshown : m.typeText id = reference m (maxLayoutDepth + 1) [] id :=
    congrArg (fun outcome => outcome.run.1) (run_render hallowed)
  rw [hshown, evaluate_eq (Nat.zero_add _)]

/-- A list node that points to the next one, with a named and two unnamed members, one of which is
undefined. -/
theorem typeText_eq_evaluate_list_node :
    let words := (Assembly.ofStatements
      [.memberName 3 0 "value", .memberName 3 2 "", .typeFloat 1 32, .typeVector 2 1 4,
        .typeStruct 3 [2, 4, 9], .typePointer 4 2 3]).words
    ∃ m, parse .core {} words = .ok m ∧ (evaluate m [] 3).calls = 6 ∧
      (evaluate m [] 3).nameBytes = 5 ∧
      m.typeText 3 = "\x7b vec<Float32, 4> value,*<cycle %3>,<unknown type> \x7d" ∧
      (evaluate m [] 3).text = m.typeText 3 := by
  intro words
  have hfacts : (parse .core {} words).toOption.map (fun m => (m.typeText 3,
      visits (inside m (maxLayoutDepth + 1) [] 3), copied (inside m (maxLayoutDepth + 1) [] 3))) =
        some ("\x7b vec<Float32, 4> value,*<cycle %3>,<unknown type> \x7d", 5, 5) := by
    decide +kernel
  obtain ⟨m, hparsed, hfacts⟩ := Option.map_eq_some_iff.mp hfacts
  obtain ⟨htext, hvisits, hcopied⟩ : _ ∧ _ ∧ _ := by simpa only [Prod.mk.injEq] using hfacts
  have hcalls : (evaluate m [] 3).calls = 6 := by
    rw [evaluate_eq (Nat.zero_add _), hvisits]
  have hnames : (evaluate m [] 3).nameBytes = 5 := by
    rw [evaluate_eq (Nat.zero_add _), hcopied]
  refine ⟨m, eq_ok_of_toOption hparsed, hcalls, hnames, htext, ?_⟩
  exact (typeText_eq_evaluate m 3 (hcalls ▸ by decide) (hnames ▸ by decide)).symm

end ShaderModule

end ShaderReflection
