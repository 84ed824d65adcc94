import ShaderReflection.Proofs.Rendering.Calls
import ShaderReflection.Proofs.Text.Numeral

/-!
How far a rendering goes, and how long its text can get. What is printed is paid for with the
budget: a fixed number of bytes for each type that is visited, and the bytes of the names that are
copied. So the limits on types and names bound the text, whatever the types refer to.
-/

namespace ShaderReflection

section Texts

theorem TypeKind.utf8ByteSize_displayName_le (kind : TypeKind) :
    kind.displayName.utf8ByteSize ≤ 25 := by
  have hword : ∀ literal : String, literal.utf8ByteSize ≤ 5 → ∀ word : Word,
      (literal ++ toString word).utf8ByteSize ≤ 25 := by
    intro literal hliteral word
    have hnumeral := Numeral.utf8ByteSize_toString_le word
    rw [String.utf8ByteSize_append]
    omega
  cases kind with
  | int width signed => cases signed <;> exact hword _ (by decide) width
  | float width => exact hword "Float" (by decide) width
  | _ => simp only [displayName]; decide

theorem Dim.utf8ByteSize_text_le (dim : Dim) : dim.text.utf8ByteSize ≤ 15 := by
  cases dim with
  | other word =>
      have hnumeral := Numeral.utf8ByteSize_toString_le word
      have hsize : ("Dim(" ++ toString word ++ ")").utf8ByteSize =
          4 + (toString word).utf8ByteSize + 1 := by
        rw [String.utf8ByteSize_append, String.utf8ByteSize_append]
        rfl
      change ("Dim(" ++ toString word ++ ")").utf8ByteSize ≤ 15
      omega
  | _ => decide

end Texts

namespace Rendering

/-- The bytes of text that a visit of a type pays for: the text of an image whose dimensionality has
no name, a comma, and a blank before a member's name. -/
def bytesPerVisit : Nat := 27

/-- The bytes of text that what has been taken from a budget pays for. Names beyond the limit are
not printed. -/
def paid (budget : Budget) : Nat :=
  bytesPerVisit * budget.visited + min budget.nameBytes maxNameBytes

/-- The bytes of some texts with a comma after each. -/
def listedBytes (texts : List String) : Nat := (texts.map (·.utf8ByteSize + 1)).sum

/-- Whether a rendering that begins after at most `most` visits makes at most one more than are
allowed, and takes enough from the budget to pay for what it gives, except for `free` bytes. -/
def Pays {α : Type} (most : Nat) (size : α → Nat) (free : Nat) (session : Session α) : Prop :=
  ∀ budget, budget.visited ≤ most →
    (session.run budget).run.2.visited ≤ maxTypeNodes + 1 ∧
      size (session.run budget).run.1 + paid budget ≤ paid (session.run budget).run.2 + free

/-- The bytes that the text of a type is counted with, a comma and a blank among them. -/
def countedBytes (text : String) : Nat := text.utf8ByteSize + 2

theorem listedBytes_reverse (texts : List String) :
    listedBytes texts.reverse = listedBytes texts := by
  rw [listedBytes, List.map_reverse, List.sum_reverse, listedBytes]

theorem listedBytes_cons (text : String) (texts : List String) :
    listedBytes (text :: texts) = text.utf8ByteSize + 1 + listedBytes texts := by
  rw [listedBytes, List.map_cons, List.sum_cons, listedBytes]

theorem utf8ByteSize_intercalate_le (texts : List String) :
    (",".intercalate texts).utf8ByteSize ≤ listedBytes texts := by
  induction texts with
  | nil => exact Nat.le_refl _
  | cons text rest ih =>
      rw [listedBytes_cons]
      cases rest with
      | nil =>
          rw [String.intercalate_singleton]
          omega
      | cons next rest =>
          have hcomma : ",".utf8ByteSize = 1 := rfl
          rw [String.intercalate_cons_cons, String.utf8ByteSize_append, String.utf8ByteSize_append]
          omega

theorem paid_visit (budget : Budget) : paid budget.visit = paid budget + bytesPerVisit := by
  simp only [paid, Budget.visit, bytesPerVisit]
  omega

/-- A name that keeps within the limit pays for itself. -/
theorem paid_copyName {budget : Budget} {name : String} (h : ¬ (budget.copyName name).overNames) :
    paid (budget.copyName name) = paid budget + name.utf8ByteSize := by
  have hnames := Budget.not_overNames_iff.mp h
  simp only [paid, Budget.copyName] at hnames ⊢
  omega

theorem paid_le_copyName (budget : Budget) (name : String) :
    paid budget ≤ paid (budget.copyName name) := by
  simp only [paid, Budget.copyName]
  omega

section Runs

variable {m : ShaderModule} {print : Ident → Session String}

/-- A struct whose members are cut off prints the dots once, whatever the budget has paid for. -/
theorem pays_members (hprint : ∀ part, Pays maxTypeNodes countedBytes 0 (print part)) (id : Ident)
    (ids : List Ident) (index : Nat) (done : List String) :
    Pays (maxTypeNodes + 1) listedBytes (listedBytes done + 4)
      (members m print id index done ids) := by
  have hdots : ∀ done, listedBytes (ellipsis :: done).reverse = listedBytes done + 4 := by
    intro done
    rw [listedBytes_reverse, listedBytes_cons, Nat.add_comm]
    rfl
  induction ids generalizing index done with
  | nil =>
      intro budget hvisited
      refine ⟨hvisited, ?_⟩
      change listedBytes done.reverse + paid budget ≤ paid budget + (listedBytes done + 4)
      rw [listedBytes_reverse]
      omega
  | cons member rest ih =>
      intro budget hvisited
      rw [run_members_cons]
      by_cases hexhausted : budget.isExhausted
      · rw [if_pos hexhausted]
        refine ⟨hvisited, ?_⟩
        change listedBytes (ellipsis :: done).reverse + paid budget ≤ _
        rw [hdots]
        exact (Nat.add_comm _ _).le
      · have hroom : budget.visited ≤ maxTypeNodes :=
          Nat.le_of_succ_le
            (Budget.not_overNodes_iff.mp (not_overNodes_of_not_isExhausted hexhausted))
        obtain ⟨hprinted, htext⟩ := hprint member budget hroom
        rw [if_neg hexhausted]
        generalize ((print member).run budget).run = outcome at hprinted htext
        obtain ⟨type, printed⟩ := outcome
        simp only [countedBytes] at hprinted htext
        dsimp only
        split_ifs with hempty hover
        · obtain ⟨hvisited', hlisted⟩ := ih (index + 1) (type :: done) printed hprinted
          rw [listedBytes_cons] at hlisted
          exact ⟨hvisited', by omega⟩
        · refine ⟨hprinted, ?_⟩
          have hcopied := paid_le_copyName printed (m.memberLabel id index)
          change listedBytes (ellipsis :: done).reverse + paid budget ≤
            paid (printed.copyName _) + _
          rw [hdots]
          omega
        · obtain ⟨hvisited', hlisted⟩ := ih (index + 1)
            ((type ++ " " ++ m.memberLabel id index) :: done) (printed.copyName _) hprinted
          have hblank : " ".utf8ByteSize = 1 := rfl
          rw [listedBytes_cons, paid_copyName hover, String.utf8ByteSize_append,
            String.utf8ByteSize_append] at hlisted
          exact ⟨hvisited', by omega⟩

theorem pays_pure {text : String} (htext : text.utf8ByteSize ≤ 25) :
    Pays maxTypeNodes countedBytes bytesPerVisit (pure text) := by
  intro budget hvisited
  refine ⟨Nat.le_succ_of_le hvisited, ?_⟩
  change text.utf8ByteSize + 2 + paid budget ≤ paid budget + bytesPerVisit
  simp only [bytesPerVisit]
  omega

/-- What a shape adds to the text of its part is paid for by the visit of the type itself. -/
theorem pays_part {part : Ident} (hprint : Pays maxTypeNodes countedBytes 0 (print part))
    {change : String → String}
    (hchange : ∀ text, (change text).utf8ByteSize ≤ text.utf8ByteSize + bytesPerVisit) :
    Pays maxTypeNodes countedBytes bytesPerVisit (do return change (← print part)) := by
  intro budget hvisited
  obtain ⟨hprinted, htext⟩ := hprint budget hvisited
  refine ⟨hprinted, ?_⟩
  have hchanged := hchange ((print part).run budget).run.1
  change (change ((print part).run budget).run.1).utf8ByteSize + 2 + paid budget ≤
    paid ((print part).run budget).run.2 + bytesPerVisit
  simp only [countedBytes] at htext
  omega

theorem pays_ofKind (hprint : ∀ part, Pays maxTypeNodes countedBytes 0 (print part)) (id : Ident)
    (kind : TypeKind) : Pays maxTypeNodes countedBytes bytesPerVisit (ofKind m print id kind) := by
  have hnumeral := Numeral.utf8ByteSize_toString_le
  have hcounted : ∀ opening : String, opening.utf8ByteSize = 4 → ∀ (count : Word) (text : String),
      (opening ++ text ++ ", " ++ toString count ++ ">").utf8ByteSize ≤
        text.utf8ByteSize + bytesPerVisit := by
    intro opening hopening count text
    have hcount := hnumeral count
    have hclose : ", ".utf8ByteSize = 2 ∧ ">".utf8ByteSize = 1 := ⟨rfl, rfl⟩
    simp only [String.utf8ByteSize_append, bytesPerVisit]
    omega
  cases kind with
  | void | bool | int | float | sampler => exact pays_pure (TypeKind.utf8ByteSize_displayName_le _)
  | image type =>
      have hdim := type.dim.utf8ByteSize_text_le
      have himage : "Image".utf8ByteSize = 5 := rfl
      have harray : (if type.arrayed then "Array" else "").utf8ByteSize ≤ 5 := by
        split_ifs <;> decide
      refine pays_pure ?_
      rw [String.utf8ByteSize_append, String.utf8ByteSize_append]
      omega
  | pointer _ part =>
      refine pays_part (hprint part) fun text => ?_
      have hstar : "*".utf8ByteSize = 1 := rfl
      rw [String.utf8ByteSize_append]
      simp only [bytesPerVisit]
      omega
  | vector part count => exact pays_part (hprint part) (hcounted "vec<" rfl count)
  | matrix part columns => exact pays_part (hprint part) (hcounted "mat<" rfl columns)
  | array part length =>
      refine pays_part (hprint part) fun text => ?_
      have hcount := hnumeral (m.arrayLength length)
      have hbrackets : "[".utf8ByteSize = 1 ∧ "]".utf8ByteSize = 1 := ⟨rfl, rfl⟩
      change (text ++ "[" ++ toString (m.arrayLength length) ++ "]").utf8ByteSize ≤ _
      simp only [String.utf8ByteSize_append, bytesPerVisit]
      omega
  | sampledImage part =>
      refine pays_part (hprint part) fun text => ?_
      have hframe : "SampledImage<".utf8ByteSize = 13 ∧ ">".utf8ByteSize = 1 := ⟨rfl, rfl⟩
      change ("SampledImage<" ++ text ++ ">").utf8ByteSize ≤ _
      simp only [String.utf8ByteSize_append, bytesPerVisit]
      omega
  | struct ids =>
      intro budget hvisited
      obtain ⟨hvisited', hlisted⟩ :=
        pays_members (m := m) hprint id ids 0 [] budget (Nat.le_succ_of_le hvisited)
      refine ⟨hvisited', ?_⟩
      have hjoined := utf8ByteSize_intercalate_le
        ((members m print id 0 [] ids).run budget).run.1
      have hbraces : "\x7b ".utf8ByteSize = 2 ∧ " \x7d".utf8ByteSize = 2 := ⟨rfl, rfl⟩
      have hnone : listedBytes [] = 0 := rfl
      change ("\x7b " ++ ",".intercalate ((members m print id 0 [] ids).run budget).run.1 ++
        " \x7d").utf8ByteSize + 2 + paid budget ≤
          paid ((members m print id 0 [] ids).run budget).run.2 + bytesPerVisit
      rw [String.utf8ByteSize_append, String.utf8ByteSize_append]
      simp only [bytesPerVisit]
      omega

end Runs

theorem utf8ByteSize_cycle_le (id : Ident) : s!"<cycle %{id}>".utf8ByteSize ≤ 25 := by
  have hnumeral := Numeral.utf8ByteSize_toString_le id
  have hframe : "<cycle %".utf8ByteSize = 8 ∧ ">".utf8ByteSize = 1 := ⟨rfl, rfl⟩
  change ("<cycle %" ++ toString id ++ ">").utf8ByteSize ≤ 25
  rw [String.utf8ByteSize_append, String.utf8ByteSize_append]
  omega

/-- A visit that is refused pays for the dots, one that repeats a type pays for the cycle, and any
other pays for what stands around the texts of the parts. -/
theorem pays_enter {path : List Ident} {id : Ident} {next : Option String → Session String}
    (hsome : ∀ text, next (some text) = pure text)
    (hnone : Pays maxTypeNodes countedBytes bytesPerVisit (next none)) :
    Pays maxTypeNodes countedBytes 0 (enter path id >>= next) := by
  intro budget hvisited
  have hshown : ∀ text : String, text.utf8ByteSize ≤ 25 →
      countedBytes text + paid budget ≤ paid budget.visit + 0 := by
    intro text htext
    rw [paid_visit]
    simp only [countedBytes, bytesPerVisit]
    omega
  rw [StateT.run_bind, run_enter, pure_bind]
  dsimp only
  by_cases hover : budget.visit.overNodes
  · rw [if_pos hover, hsome]
    exact ⟨Nat.succ_le_succ hvisited, hshown ellipsis (by decide)⟩
  · rw [if_neg hover]
    by_cases hcycle : path.contains id
    · rw [if_pos hcycle, hsome]
      exact ⟨Nat.succ_le_succ hvisited, hshown _ (utf8ByteSize_cycle_le id)⟩
    · rw [if_neg hcycle]
      obtain ⟨hvisited', htext⟩ := hnone budget.visit (Budget.not_overNodes_iff.mp hover)
      rw [paid_visit] at htext
      exact ⟨hvisited', by omega⟩

theorem pays_render (m : ShaderModule) (levels : Nat) (path : List Ident) (id : Ident) :
    Pays maxTypeNodes countedBytes 0 (render m levels path id) := by
  induction levels generalizing path id with
  | zero => exact pays_enter (fun _ => rfl) (pays_pure (by decide))
  | succ levels ih =>
      rw [render]
      refine pays_enter (fun _ => rfl) ?_
      cases hkind : m.kind? id with
      | none => exact pays_pure (by decide)
      | some kind => exact pays_ofKind (fun part => ih (id :: path) part) id kind

end Rendering

namespace ShaderModule

open Rendering

/-- A text takes fewer bytes than all visits and names that are allowed pay for. -/
theorem utf8ByteSize_typeText_le (m : ShaderModule) (id : Ident) :
    (m.typeText id).utf8ByteSize + 2 ≤ bytesPerVisit * (maxTypeNodes + 1) + maxNameBytes := by
  obtain ⟨hvisited, htext⟩ := pays_render m (maxLayoutDepth + 1) [] id {} (Nat.zero_le _)
  have hvisits := Nat.mul_le_mul_left bytesPerVisit hvisited
  have hnames := Nat.min_le_right
    ((render m (maxLayoutDepth + 1) [] id : Session String).run {}).run.2.nameBytes maxNameBytes
  change (m.typeText id).utf8ByteSize + 2 + 0 ≤ _ + 0 at htext
  simp only [paid] at htext
  omega

/-- Whatever the types of a module refer to, and however long their names are, rendering a type
takes at most one call more than the types that may be visited, calls are inside of one another at
most twice more than types may nest, and the text is shorter than two mebibytes. -/
theorem typeText_bounded (m : ShaderModule) (id : Ident) :
    (watch m id).1 = m.typeText id ∧ (watch m id).2.made ≤ maxTypeNodes + 1 ∧
      (watch m id).2.deepest ≤ maxLayoutDepth + 2 ∧
      (m.typeText id).utf8ByteSize < 2 * 1024 * 1024 := by
  obtain ⟨calls, hwatch, hmade, hdeepest⟩ := watch_eq m id
  have hvisited := (pays_render m (maxLayoutDepth + 1) [] id {} (Nat.zero_le _)).1
  have hbytes := m.utf8ByteSize_typeText_le id
  rw [hwatch]
  refine ⟨rfl, hmade ▸ hvisited, hdeepest, ?_⟩
  simp only [bytesPerVisit, maxTypeNodes, maxNameBytes] at hbytes
  omega

end ShaderModule

end ShaderReflection
