import ShaderReflection.Proofs.Rendering.Reference

/-!
The calls that a rendering makes. A rendering whose calls are watched gives the same text from the
same budget, calls itself once for every type that it visits, and is never inside of more calls than
types may nest.
-/

namespace ShaderReflection.Rendering

/-- The calls of a rendering: how many have been made, how many of them have not returned, and how
many that were at most. -/
structure Calls where
  made : Nat := 0
  waiting : Nat := 0
  deepest : Nat := 0
  deriving DecidableEq, Repr

namespace Calls

/-- A call is made. -/
def begin (calls : Calls) : Calls where
  made := calls.made + 1
  waiting := calls.waiting + 1
  deepest := max calls.deepest (calls.waiting + 1)

/-- The last call that was made returns. -/
def finish (calls : Calls) : Calls := { calls with waiting := calls.waiting - 1 }

end Calls

/-- A rendering within the budget of one question, whose calls are watched. -/
abbrev Watched := StateT Budget (StateM Calls)

namespace Watched

instance : Charging (StateM Calls) := .unbounded

/-- One call. -/
def call {α : Type} (body : Watched α) : Watched α := do
  modifyThe Calls Calls.begin
  let result ← body
  modifyThe Calls Calls.finish
  return result

/-- The call that renders the type `id`, made while the types `path` are being rendered, innermost
first. Nothing is looked into below more than `maxLayoutDepth` of them. -/
def print (m : ShaderModule) (path : List Ident) (id : Ident) : Watched String :=
  call do
    match ← enter path id with
    | some text => return text
    | none =>
      if maxLayoutDepth < path.length then return ellipsis
      else
        match m.kind? id with
        | none => return "<unknown type>"
        | some kind => ofKind m (fun part => print m (id :: path) part) id kind
termination_by maxLayoutDepth + 1 - path.length

end Watched

/-- The text of a type, and the calls that are made until it is rendered. -/
def watch (m : ShaderModule) (id : Ident) : String × Calls :=
  let ((text, _), calls) := (((Watched.print m [] id).run {}).run {}).run
  (text, calls)

/-- Whether a rendering does the same when its calls are watched. It makes as many calls as it
visits types, they all return, and at most `levels` of them are inside of one another. -/
def Watches {α : Type} (levels : Nat) (watched : Watched α) (session : Session α) : Prop :=
  ∀ budget calls, ∃ calls',
    ((watched.run budget).run calls).run = ((session.run budget).run, calls') ∧
    calls'.made + budget.visited = calls.made + (session.run budget).run.2.visited ∧
    calls'.waiting = calls.waiting ∧ calls'.deepest ≤ max calls.deepest (calls.waiting + levels)

section Steps

variable {α β : Type} {levels : Nat}

theorem watches_pure (levels : Nat) (value : α) : Watches levels (pure value) (pure value) :=
  fun _ calls => ⟨calls, rfl, rfl, rfl, Nat.le_max_left _ _⟩

theorem Watches.bind {watched : Watched α} {session : Session α} {next : α → Watched β}
    {next' : α → Session β} (h : Watches levels watched session)
    (hnext : ∀ value, Watches levels (next value) (next' value)) :
    Watches levels (watched >>= next) (session >>= next') := by
  intro budget calls
  obtain ⟨between, hrun, hmade, hwaiting, hdeepest⟩ := h budget calls
  obtain ⟨calls', hrun', hmade', hwaiting', hdeepest'⟩ :=
    hnext (session.run budget).run.1 (session.run budget).run.2 between
  refine ⟨calls', ?_, ?_, hwaiting'.trans hwaiting, ?_⟩
  · change (let outcome := ((watched.run budget).run calls).run
      (((next outcome.1.1).run outcome.1.2).run outcome.2).run) = _
    rw [hrun]
    exact hrun'
  · change _ = _ + ((next' (session.run budget).run.1).run (session.run budget).run.2).run.2.visited
    omega
  · omega

theorem watches_test {test : Budget → Bool} {yes no : Watched β} {yes' no' : Session β}
    (hyes : Watches levels yes yes') (hno : Watches levels no no') :
    Watches levels (do if test (← get) then yes else no)
      (do if test (← get) then yes' else no') := by
  intro budget calls
  change ∃ calls', (((if test budget then yes else no).run budget).run calls).run =
    (((if test budget then yes' else no').run budget).run, calls') ∧ _ = _ +
      ((if test budget then yes' else no').run budget).run.2.visited ∧ _
  split_ifs
  · exact hyes budget calls
  · exact hno budget calls

theorem watches_takeName (levels : Nat) (name : String) :
    Watches levels (takeName name) (takeName name) :=
  fun _ calls => ⟨calls, rfl, rfl, rfl, Nat.le_max_left _ _⟩

/-- A call that visits one type is inside of the calls that were waiting, and those that it makes
are inside of it. -/
theorem watches_call {visit : Watched α} {visit' : Session α} {next : α → Watched β}
    {next' : α → Session β}
    (hstill : ∀ budget calls,
      ((visit.run budget).run calls).run = ((visit'.run budget).run, calls))
    (hvisit : ∀ budget, (visit'.run budget).run.2.visited = budget.visited + 1)
    (hnext : ∀ value, Watches levels (next value) (next' value)) :
    Watches (levels + 1) (Watched.call (visit >>= next)) (visit' >>= next') := by
  intro budget calls
  obtain ⟨calls', hrun, hmade, hwaiting, hdeepest⟩ :=
    hnext (visit'.run budget).run.1 (visit'.run budget).run.2 calls.begin
  have hbegin : calls.begin.made = calls.made + 1 ∧ calls.begin.waiting = calls.waiting + 1 ∧
      calls.begin.deepest = max calls.deepest (calls.waiting + 1) := ⟨rfl, rfl, rfl⟩
  refine ⟨calls'.finish, ?_, ?_, ?_, ?_⟩
  · change (let visited := ((visit.run budget).run calls.begin).run
      let outcome := (((next visited.1.1).run visited.1.2).run visited.2).run
      (outcome.1, outcome.2.finish)) = _
    rw [hstill]
    change (let outcome :=
        (((next (visit'.run budget).run.1).run (visit'.run budget).run.2).run calls.begin).run
      (outcome.1, outcome.2.finish)) = _
    rw [hrun]
    rfl
  · change calls'.made + _ =
      _ + ((next' (visit'.run budget).run.1).run (visit'.run budget).run.2).run.2.visited
    rw [hvisit] at hmade
    omega
  · change calls'.waiting - 1 = _
    omega
  · change calls'.deepest ≤ _
    omega

end Steps

section Texts

variable {m : ShaderModule} {levels : Nat} {print : Ident → Watched String}
  {print' : Ident → Session String}

theorem watches_members (hprint : ∀ id, Watches levels (print id) (print' id)) (id : Ident)
    (ids : List Ident) (index : Nat) (done : List String) :
    Watches levels (members m print id index done ids) (members m print' id index done ids) := by
  induction ids generalizing index done with
  | nil => exact watches_pure _ _
  | cons member rest ih =>
      rw [members, members]
      refine watches_test (watches_pure _ _) ((hprint member).bind fun type => ?_)
      dsimp only
      split_ifs
      · exact ih _ _
      · exact (watches_takeName _ _).bind fun _ => watches_test (watches_pure _ _) (ih _ _)

theorem watches_ofKind (hprint : ∀ id, Watches levels (print id) (print' id)) (id : Ident)
    (kind : TypeKind) : Watches levels (ofKind m print id kind) (ofKind m print' id kind) := by
  have hpart : ∀ (part : Ident) (change : String → String),
      Watches levels (do return change (← print part)) (do return change (← print' part)) :=
    fun part _ => (hprint part).bind fun _ => watches_pure _ _
  cases kind with
  | void | bool | int | float | image | sampler => exact watches_pure _ _
  | vector part | array part | matrix part | sampledImage part => exact hpart part _
  | pointer _ part => exact hpart part _
  | struct ids => exact (watches_members hprint id ids 0 []).bind fun _ => watches_pure _ _

theorem run_enter_watched (path : List Ident) (id : Ident) (budget : Budget) (calls : Calls) :
    (((enter path id : Watched (Option String)).run budget).run calls).run =
      (((enter path id : Session (Option String)).run budget).run, calls) := by
  rw [run_enter_of_visit rfl, run_enter]
  rfl

theorem visited_enter (path : List Ident) (id : Ident) (budget : Budget) :
    ((enter path id : Session (Option String)).run budget).run.2.visited = budget.visited + 1 := by
  rw [run_enter]
  rfl

/-- The levels that are left for a type bound how deep its calls are inside of one another. -/
theorem watches_print {path : List Ident} (hlevels : path.length + levels = maxLayoutDepth + 1)
    (id : Ident) : Watches (levels + 1) (Watched.print m path id) (render m levels path id) := by
  induction levels generalizing path id with
  | zero =>
      rw [Watched.print]
      refine watches_call (run_enter_watched path id) (visited_enter path id) fun text => ?_
      cases text with
      | some text => exact watches_pure _ _
      | none =>
          rw [if_pos (by omega)]
          exact watches_pure _ _
  | succ levels ih =>
      rw [Watched.print]
      refine watches_call (run_enter_watched path id) (visited_enter path id) fun text => ?_
      cases text with
      | some text => exact watches_pure _ _
      | none =>
          rw [if_neg (by omega)]
          cases hkind : m.kind? id with
          | none => exact watches_pure _ _
          | some kind =>
              refine watches_ofKind (fun part => ih ?_ part) id kind
              rw [List.length_cons]
              omega

/-- Watching the calls of a rendering changes nothing else. There are as many of them as the
rendering visits types. -/
theorem watch_eq (m : ShaderModule) (id : Ident) :
    ∃ calls, watch m id = (m.typeText id, calls) ∧
      calls.made =
        ((render m (maxLayoutDepth + 1) [] id : Session String).run {}).run.2.visited ∧
      calls.deepest ≤ maxLayoutDepth + 2 := by
  have hwatches : Watches (maxLayoutDepth + 1 + 1) (Watched.print m [] id)
      (render m (maxLayoutDepth + 1) [] id) := watches_print (Nat.zero_add _) id
  obtain ⟨calls, hrun, hmade, -, hdeepest⟩ := hwatches {} {}
  refine ⟨calls, ?_, ?_, ?_⟩
  · rw [watch, hrun]
    rfl
  · simpa using hmade
  · simpa using hdeepest

end Texts

end ShaderReflection.Rendering
