import ShaderReflection.Proofs.Module.Pass
import ShaderReflection.Proofs.Stream.Tiling
import ShaderReflection.Proofs.Text.Size
import ShaderReflection.Proofs.Word

/-!
Reading by operations that may fault. Words and slices are taken from lists without asking whether
the lists are long enough, numbers are narrowed and subtracted, and moving past an instruction is
taken for granted. Outside their range these operations give no result at all, not even an error,
and no module makes reading use one of them there.
-/

namespace ShaderReflection

/-- A computation that may fail with an error and may also fault, which is `none`. Nothing recovers
from a fault. -/
abbrev Faulting (ε α : Type) := ExceptT ε Option α

namespace Faulting

variable {ε α β : Type}

section Operations

/-- What an operation gives outside its range. -/
def fault : Faulting ε α := ExceptT.mk none

/-- A computation that does not fault. -/
def total (outcome : Except ε α) : Faulting ε α := ExceptT.mk (some outcome)

/-- The item at a place, which must be inside the list. -/
def item (items : List α) (place : Nat) : Faulting ε α :=
  match items[place]? with
  | some value => pure value
  | none => fault

/-- The items from a place on, which must not be past the end of the list. -/
def itemsFrom (items : List α) (start : Nat) : Faulting ε (List α) :=
  if start ≤ items.length then pure (items.drop start) else fault

/-- A difference, which must not be negative. -/
def difference (a b : Nat) : Faulting ε Nat :=
  if b ≤ a then pure (a - b) else fault

/-- A number in 16 bits, which must hold it. -/
def narrow (n : Nat) : Faulting ε UInt16 :=
  if n < UInt16.size then pure n.toUInt16 else fault

/-- Steps that follow a computation that does not fault need not fault only on what it gives. -/
theorem bind_total {first : Except ε α} {next : α → Faulting ε β} {next' : α → Except ε β}
    (hnext : ∀ value, first = .ok value → next value = total (next' value)) :
    (total first >>= next) = total (first >>= next') := by
  cases first with
  | error error => rfl
  | ok value => exact hnext value rfl

theorem itemsFrom_eq {items : List α} {start : Nat} (hstart : start ≤ items.length) :
    itemsFrom items start = (pure (items.drop start) : Faulting ε (List α)) :=
  if_pos hstart

theorem difference_eq {a b : Nat} (hle : b ≤ a) :
    difference a b = (pure (a - b) : Faulting ε Nat) :=
  if_pos hle

theorem narrow_eq {n : Nat} (hfits : n < 65536) :
    narrow n = (pure n.toUInt16 : Faulting ε UInt16) :=
  if_pos hfits

end Operations

section Images

/-- The groups of four bytes that an image is made of. -/
def groups : List UInt8 → List (List UInt8)
  | first :: second :: third :: fourth :: rest => [first, second, third, fourth] :: groups rest
  | _ => []

/-- The word whose bytes are in a group. -/
def wordOf (group : List UInt8) : Faulting ε Word :=
  return Word.ofBytes (← item group 0) (← item group 1) (← item group 2) (← item group 3)

/-- The words of a module's byte image. -/
def wordsOfImage (image : List UInt8) : Faulting ParseError (List Word) :=
  if image.length % 4 = 0 then (groups image).mapM wordOf
  else throw (.misalignedBytes image.length)

theorem mapM_wordOf_groups : ∀ image : List UInt8,
    (groups image).mapM wordOf = total (.ok (Word.ofImage image) : Except ε (List Word))
  | first :: second :: third :: fourth :: rest => by
      rw [groups, List.mapM_cons, mapM_wordOf_groups rest, Word.ofImage_cons]
      rfl
  | [] | [_] | [_, _] | [_, _, _] => rfl

theorem wordsOfImage_eq (image : List UInt8) :
    wordsOfImage image = total (ShaderModule.wordsOfImage image) := by
  unfold wordsOfImage ShaderModule.wordsOfImage
  split_ifs with hwhole
  · exact mapM_wordOf_groups image
  · rfl

end Images

section Instructions

/-- The instruction at a place. Its word count is kept in 16 bits. -/
def current (cursor : Cursor) : Faulting ParseError Instruction := do
  let some first := cursor.words[cursor.offset]?
    | throw (.malformed cursor.offset none (.overrun 0 cursor.words.length))
  let opcode := Instruction.opcodeOf first
  let count := Instruction.countOf first
  if count = 0 then throw (.malformed cursor.offset (some opcode) .zeroLength)
  let stop := cursor.offset + count
  if cursor.words.length < stop then
    let available ← difference cursor.words.length cursor.offset
    throw (.malformed cursor.offset (some opcode) (.overrun count available))
  let words := (cursor.words.take stop).drop cursor.offset
  let _ ← narrow count
  return ⟨cursor.offset, opcode, ← itemsFrom words 1⟩

theorem current_eq (cursor : Cursor) : current cursor = total cursor.current := by
  have hfirst : cursor.words[cursor.offset]? = cursor.rest.head? := by
    rw [cursor.rest_eq, List.head?_drop]
  unfold current
  rw [hfirst]
  cases hrest : cursor.rest with
  | nil =>
      rw [Cursor.current, hrest]
      rfl
  | cons first following =>
      have hlength : cursor.words.length = cursor.offset + (following.length + 1) := by
        have hdrop := congrArg List.length (cursor.rest_eq.symm.trans hrest)
        rw [List.length_drop, List.length_cons] at hdrop
        omega
      have hcount := Instruction.countOf_lt first
      rw [cursor.current_eq hrest, List.head?_cons]
      simp only [Nat.add_lt_add_iff_left, hlength]
      split_ifs with hzero hlong hlong
      · rfl
      · rfl
      · rw [difference_eq (Nat.le_add_right _ _)]
        rfl
      · have himage : (cursor.words.take (cursor.offset + Instruction.countOf first)).drop
            cursor.offset = first :: following.take (Instruction.countOf first - 1) := by
          rw [List.drop_take, Nat.add_sub_cancel_left, ← cursor.rest_eq, hrest,
            List.take_cons (Nat.pos_of_ne_zero hzero)]
        rw [himage, narrow_eq hcount]
        rfl

end Instructions

section Declarations

/-- What an operation declares. Once enough operands are there, they are taken without asking. -/
def declaration (context : Declaration.Context) (op : Operation) (insn : Instruction) :
    Faulting ParseError Declaration := do
  let ops := insn.operands
  if ops.length < op.minOperands then
    throw (.malformed insn.offset (some insn.opcode) (.missingOperand op ops.length))
  let define (id : Ident) (kind : TypeKind) : Faulting ParseError Declaration := do
    total (context.checkId insn id)
    return .type (.ofKind id kind)
  match op with
  | .extInstImport => do
      total (context.checkId insn (← item ops 0))
      let (set, _) ← total (Declaration.literal op insn 1)
      return .extInstImport (← item ops 0) set
  | .entryPoint => do
      let function ← item ops 1
      total (context.checkId insn function)
      let (text, next) ← total (Declaration.literal op insn 2)
      let interface ← itemsFrom ops next
      total (context.checkIds insn interface)
      return .entryPoint ⟨text, function, .ofWord (← item ops 0), interface⟩
  | .name => do
      let target ← item ops 0
      total (context.checkId insn target)
      let (text, _) ← total (Declaration.literal op insn 1)
      return .name target text
  | .memberName => do
      let target ← item ops 0
      let member ← item ops 1
      total (context.checkId insn target)
      let (text, _) ← total (Declaration.literal op insn 2)
      return .memberName target member text
  | .decorate => do
      let target ← item ops 0
      let kind ← item ops 1
      total (context.checkId insn target)
      return .decorate target ⟨kind, context.names.decorationName kind, ← itemsFrom ops 2⟩
  | .typeVoid => do define (← item ops 0) .void
  | .typeBool => do define (← item ops 0) .bool
  | .typeInt => do define (← item ops 0) (.int (← item ops 1) ((← item ops 2) != 0))
  | .typeFloat => do define (← item ops 0) (.float (← item ops 1))
  | .typeVector => do define (← item ops 0) (.vector (← item ops 1) (← item ops 2))
  | .typeMatrix => do define (← item ops 0) (.matrix (← item ops 1) (← item ops 2))
  | .typeArray => do define (← item ops 0) (.array (← item ops 1) (← item ops 2))
  | .typePointer => do
      define (← item ops 0) (.pointer (.ofWord (← item ops 1)) (← item ops 2))
  | .typeStruct => do define (← item ops 0) (.struct (← itemsFrom ops 1))
  | .typeImage => do
      let dim := Dim.ofWord (← item ops 2)
      define (← item ops 0) (.image
        { sampledType := ← item ops 1, dim, depth := ← item ops 3,
          arrayed := (← item ops 4) != 0, multisampled := (← item ops 5) != 0,
          sampled := ← item ops 6, format := ← item ops 7 })
  | .typeSampler => do define (← item ops 0) .sampler
  | .typeSampledImage => do define (← item ops 0) (.sampledImage (← item ops 1))
  | .constant => do
      let valueType ← item ops 0
      let id ← item ops 1
      total (context.checkId insn id)
      return .constant ⟨id, valueType, ← itemsFrom ops 2⟩
  | .moduleVariable => do
      let pointerType ← item ops 0
      let id ← item ops 1
      total (context.checkId insn id)
      return .moduleVariable ⟨id, pointerType, .ofWord (← item ops 2)⟩

theorem declaration_eq (context : Declaration.Context) (op : Operation) (insn : Instruction) :
    declaration context op insn = total (Declaration.ofOperands context op insn) := by
  obtain ⟨offset, opcode, operands⟩ := insn
  cases op
  case typeImage =>
    rcases operands with _ | ⟨_, _ | ⟨_, _ | ⟨_, _ | ⟨_, _ | ⟨_, _ | ⟨_, _ | ⟨_, _ | ⟨_, _⟩⟩⟩⟩⟩⟩⟩⟩
    all_goals first | rfl | exact bind_total fun _ _ => rfl
  case extInstImport | name =>
    rcases operands with _ | ⟨id, _ | ⟨first, rest⟩⟩
    · rfl
    · rfl
    · exact bind_total fun _ _ => bind_total fun _ _ => rfl
  case memberName =>
    rcases operands with _ | ⟨target, _ | ⟨member, _ | ⟨first, rest⟩⟩⟩
    · rfl
    · rfl
    · rfl
    · exact bind_total fun _ _ => bind_total fun _ _ => rfl
  case entryPoint =>
    rcases operands with _ | ⟨model, _ | ⟨function, _ | ⟨first, rest⟩⟩⟩
    · rfl
    · rfl
    · rfl
    · change (total (context.checkId _ function) >>= fun _ =>
        total (Declaration.literal .entryPoint _ 2) >>= fun literal =>
          itemsFrom (model :: function :: first :: rest) literal.2 >>= fun interface =>
            total (context.checkIds _ interface) >>= fun _ => _) = total (_ >>= fun _ => _ >>= _)
      refine bind_total fun _ _ => bind_total fun literal hliteral => ?_
      have hdecode : Literal.decode? (model :: function :: first :: rest) 2 = some literal := by
        unfold Declaration.literal at hliteral
        split at hliteral
        · next result hresult => rw [← Except.ok.inj hliteral, hresult]
        · cases hliteral
      rw [itemsFrom_eq (Literal.next_le_of_decode hdecode), pure_bind]
      exact bind_total fun _ _ => rfl
  all_goals
    rcases operands with _ | ⟨_, _ | ⟨_, _ | ⟨_, _⟩⟩⟩
    all_goals first | rfl | exact bind_total fun _ _ => rfl

end Declarations

section Modules

open ShaderModule

/-- Adds what an instruction declares to the module that the ones before it have built. -/
def apply (context : Declaration.Context) (m : ShaderModule) (insn : Instruction) :
    Faulting ParseError ShaderModule :=
  match (context.names.opcodeName insn.opcode).bind Operation.ofMnemonic? with
  | none => return m
  | some op => return m.declare (← declaration context op insn)

theorem length_rest_advance_lt {cursor next : Cursor} (h : cursor.advance = .ok next) :
    next.rest.length < cursor.rest.length := by
  unfold Cursor.advance Cursor.currentSize at h
  cases hrest : cursor.rest with
  | nil =>
      rw [hrest] at h
      cases h
  | cons first following =>
      rw [hrest] at h
      simp only at h
      split at h
      · cases h
      · cases h
        simp only [Cursor.skip, hrest, List.length_drop, List.length_cons]
        omega

/-- Reads and applies the instructions from a place on. It is taken for granted that one can move
past an instruction that has been read. -/
def pass (context : Declaration.Context) (m : ShaderModule) (cursor : Cursor) :
    Faulting ParseError ShaderModule := do
  if cursor.inBounds then
    let insn ← current cursor
    match h : cursor.advance with
    | .error _ => fault
    | .ok next =>
      have := length_rest_advance_lt h
      let m ← apply context m insn
      pass context m next
  else return m
termination_by cursor.rest.length

/-- Reads a module. -/
def parse (names : NameTable) (options : ParseOptions) (words : List Word) :
    Faulting ParseError ShaderModule := do
  let header ← total (parseHeader options words)
  let context := { names, bound := header.bound, checkIdBound := options.checkIdBound }
  pass context (empty header) (Cursor.ofWords words)

/-- Reads a module from its byte image. -/
def parseImage (names : NameTable) (options : ParseOptions) (image : List UInt8) :
    Faulting ParseError ShaderModule := do
  parse names options (← wordsOfImage image)

theorem apply_eq (context : Declaration.Context) (m : ShaderModule) (insn : Instruction) :
    apply context m insn = total (ShaderModule.apply context m insn) := by
  unfold apply ShaderModule.apply Declaration.ofInstruction
  cases (context.names.opcodeName insn.opcode).bind Operation.ofMnemonic? with
  | none => rfl
  | some op =>
      simp only [declaration_eq]
      cases Declaration.ofOperands context op insn <;> rfl

/-- Moving past an instruction that has been read always succeeds, so a pass does not fault. -/
theorem pass_eq (context : Declaration.Context) (cursor : Cursor) (m : ShaderModule) :
    pass context m cursor = total (do
      let m ← (cursor.scanFrom []).1.foldlM (ShaderModule.apply context) m
      (cursor.scanFrom []).2.elim (.ok m) .error) := by
  revert m
  refine Cursor.scan_induction (motive := fun cursor insns ending => ∀ m, pass context m cursor =
    total (do
      let m ← insns.foldlM (ShaderModule.apply context) m
      ending.elim (.ok m) .error)) ?_ ?_ ?_ cursor
  · intro cursor houtside m
    rw [pass, if_neg (by simp [houtside])]
    rfl
  · intro cursor error hinside hcurrent m
    rw [pass, if_pos hinside, current_eq, hcurrent]
    rfl
  · intro cursor insn insns ending hinside hcurrent ih m
    have hadvance := cursor.advance_of_current hcurrent
    rw [pass, if_pos hinside, current_eq, hcurrent]
    change (match hnext : cursor.advance with
      | .error _ => fault
      | .ok next => (apply context m insn >>= fun m => pass context m next)) = _
    split
    · next error herror =>
        rw [hadvance] at herror
        cases herror
    · next next hnext =>
        obtain rfl := Except.ok.inj (hadvance.symm.trans hnext)
        rw [apply_eq, List.foldlM_cons, bind_assoc]
        exact bind_total fun m _ => ih m

theorem parse_eq (names : NameTable) (options : ParseOptions) (words : List Word) :
    parse names options words = total (ShaderModule.parse names options words) := by
  rw [parse_eq_pass]
  exact bind_total fun header _ => pass_eq _ _ _

theorem parseImage_eq (names : NameTable) (options : ParseOptions) (image : List UInt8) :
    parseImage names options image = total (ShaderModule.parseImage names options image) := by
  unfold parseImage
  rw [wordsOfImage_eq]
  exact bind_total fun words _ => parse_eq names options words

end Modules

end Faulting

end ShaderReflection
