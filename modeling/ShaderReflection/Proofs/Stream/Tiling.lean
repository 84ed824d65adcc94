import Mathlib.Tactic.SplitIfs
import ShaderReflection.Instruction.Decoder
import ShaderReflection.NameTable.Core
import ShaderReflection.Proofs.Fallible

/-!
The instructions of a stream lie end to end. A cursor reads an instruction exactly where the
instruction's own words stand, so what a walk gives covers the stream from the header to the place
where the walk stops, and writing the instructions again gives back the words that were read.
-/

namespace ShaderReflection

namespace Instruction

/-- A first word is its opcode and its count and nothing else. -/
theorem firstWord_opcodeOf_countOf (first : Word) :
    firstWord (opcodeOf first) (countOf first) = first := by
  have hword : first.toNat < 4294967296 := first.toNat_lt
  have hopcode : (opcodeOf first).toNat = first.toNat % 65536 := UInt16.toNat_ofNat'
  apply UInt32.toNat_inj.mp
  rw [firstWord, hopcode, countOf, UInt32.toNat_ofNat']
  omega

theorem countOf_firstWord (opcode : UInt16) (count : Nat) (hcount : count < 65536) :
    countOf (firstWord opcode count) = count := by
  have hopcode : opcode.toNat < 65536 := opcode.toNat_lt
  rw [countOf, firstWord, UInt32.toNat_ofNat']
  omega

theorem opcodeOf_firstWord (opcode : UInt16) (count : Nat) :
    opcodeOf (firstWord opcode count) = opcode := by
  have hopcode : opcode.toNat < 65536 := opcode.toNat_lt
  apply UInt16.toNat_inj.mp
  rw [opcodeOf, firstWord, UInt16.toNat_ofNat', UInt32.toNat_ofNat']
  omega

theorem countOf_lt (first : Word) : countOf first < 65536 := by
  have hword : first.toNat < 4294967296 := first.toNat_lt
  simp only [countOf]
  omega

@[simp] theorem length_words (insn : Instruction) : insn.words.length = insn.wordCount := by
  simp [words, encode, wordCount]

end Instruction

theorem Header.headerLength_le_of_parse {words : List Word} {header : Header}
    (hheader : Header.parse words = .ok header) : headerLength ≤ words.length := by
  unfold Header.parse at hheader
  split at hheader
  · simp only [headerLength, List.length_cons]
    omega
  · cases hheader

namespace Cursor

theorem inBounds_iff (cursor : Cursor) :
    cursor.inBounds = true ↔ cursor.offset < cursor.words.length := by
  simp [inBounds, cursor.rest_eq]

/-- The words of an instruction begin a stream exactly when its first word does and its operands
follow. -/
theorem words_prefix_iff (insn : Instruction) (first : Word) (following : List Word)
    (hcount : insn.wordCount < 65536) :
    insn.words <+: first :: following ↔
      Instruction.opcodeOf first = insn.opcode ∧ Instruction.countOf first = insn.wordCount ∧
        insn.operands <+: following := by
  have hsplit : insn.words <+: first :: following ↔
      Instruction.firstWord insn.opcode insn.wordCount = first ∧ insn.operands <+: following :=
    List.cons_prefix_cons
  rw [hsplit]
  constructor
  · rintro ⟨rfl, hoperands⟩
    exact ⟨Instruction.opcodeOf_firstWord _ _, Instruction.countOf_firstWord _ _ hcount, hoperands⟩
  · rintro ⟨hopcode, hsize, hoperands⟩
    rw [← hopcode, ← hsize]
    exact ⟨Instruction.firstWord_opcodeOf_countOf first, hoperands⟩

/-- What is read at a place where a word stands depends on the count in that word alone. -/
theorem current_eq (cursor : Cursor) {first : Word} {following : List Word}
    (hrest : cursor.rest = first :: following) :
    cursor.current =
      if Instruction.countOf first = 0 then
        .error (.malformed cursor.offset (some (Instruction.opcodeOf first)) .zeroLength)
      else if following.length + 1 < Instruction.countOf first then
        .error (.malformed cursor.offset (some (Instruction.opcodeOf first))
          (.overrun (Instruction.countOf first) (cursor.words.length - cursor.offset)))
      else
        .ok ⟨cursor.offset, Instruction.opcodeOf first,
          following.take (Instruction.countOf first - 1)⟩ := by
  unfold current
  rw [hrest]
  cases hsize : Instruction.countOf first with
  | zero => simp [hsize]
  | succ count =>
      simp only [hsize, List.length_take, Nat.add_sub_cancel]
      have hshort : min count following.length < count ↔ following.length + 1 < count + 1 := by
        omega
      simp only [hshort, Nat.add_one_ne_zero, ↓reduceIte]

/-- An instruction is read at a place exactly when its own words stand there. -/
theorem current_eq_ok_iff (cursor : Cursor) (insn : Instruction) :
    cursor.current = .ok insn ↔
      insn.offset = cursor.offset ∧ insn.wordCount < 65536 ∧ insn.words <+: cursor.rest := by
  cases hrest : cursor.rest with
  | nil => simp [current, hrest, Instruction.words, Instruction.encode]
  | cons first following =>
      rw [cursor.current_eq hrest]
      have hbound := Instruction.countOf_lt first
      constructor
      · intro h
        split_ifs at h with hzero hlong
        obtain rfl := Except.ok.inj h
        have hlength : (following.take (Instruction.countOf first - 1)).length + 1 =
            Instruction.countOf first := by
          rw [List.length_take]
          omega
        refine ⟨rfl, by rwa [Instruction.wordCount, hlength], ?_⟩
        refine (words_prefix_iff _ first following (by rwa [Instruction.wordCount, hlength])).mpr
          ⟨rfl, hlength.symm, List.take_prefix _ following⟩
      · rintro ⟨hoffset, hcount, hwords⟩
        obtain ⟨hopcode, hcounted, hoperands⟩ :=
          (words_prefix_iff insn first following hcount).mp hwords
        have hlength := hoperands.length_le
        simp only [Instruction.wordCount] at hcounted
        rw [if_neg (by omega), if_neg (by omega), hcounted, Nat.add_sub_cancel, hopcode, ← hoffset,
          ← List.prefix_iff_eq_take.mp hoperands]

/-- A place where nothing can be read although a word stands there: the count in that word is
zero, or it is larger than the number of words that are left. -/
def Blocked (words : List Word) (place : Nat) (error : ParseError) : Prop :=
  ∃ first, words[place]? = some first ∧
    ((Instruction.countOf first = 0 ∧
        error = .malformed place (some (Instruction.opcodeOf first)) .zeroLength) ∨
      (words.length - place < Instruction.countOf first ∧
        error = .malformed place (some (Instruction.opcodeOf first))
          (.overrun (Instruction.countOf first) (words.length - place))))

theorem blocked_of_current (cursor : Cursor) {error : ParseError}
    (hinside : cursor.inBounds = true) (hcurrent : cursor.current = .error error) :
    Blocked cursor.words cursor.offset error := by
  cases hrest : cursor.rest with
  | nil => simp [inBounds, hrest] at hinside
  | cons first following =>
      have hdrop : cursor.words.drop cursor.offset = first :: following := by
        rw [← cursor.rest_eq, hrest]
      have hlength : cursor.words.length - cursor.offset = following.length + 1 := by
        rw [← List.length_drop, hdrop, List.length_cons]
      refine ⟨first, by rw [← List.head?_drop, hdrop, List.head?_cons], ?_⟩
      rw [cursor.current_eq hrest] at hcurrent
      split_ifs at hcurrent with hzero hlong
      · exact Or.inl ⟨hzero, (Except.error.inj hcurrent).symm⟩
      · exact Or.inr ⟨by omega, (Except.error.inj hcurrent).symm⟩

theorem scanFrom_end (cursor : Cursor) (before : List Instruction)
    (houtside : cursor.inBounds = false) : cursor.scanFrom before = (before.reverse, none) := by
  rw [scanFrom, dif_neg (by simp [houtside])]

theorem scanFrom_error (cursor : Cursor) (before : List Instruction) {error : ParseError}
    (hinside : cursor.inBounds = true) (hcurrent : cursor.current = .error error) :
    cursor.scanFrom before = (before.reverse, some error) := by
  rw [scanFrom, dif_pos hinside, hcurrent]

theorem scanFrom_ok (cursor : Cursor) (before : List Instruction) {insn : Instruction}
    (hinside : cursor.inBounds = true) (hcurrent : cursor.current = .ok insn) :
    cursor.scanFrom before = (cursor.skip insn.wordCount).scanFrom (insn :: before) := by
  rw [scanFrom, dif_pos hinside, hcurrent]

/-- What was read before a place is put in front of what is read from it on. -/
theorem scanFrom_eq (cursor : Cursor) (before : List Instruction) :
    cursor.scanFrom before =
      (before.reverse ++ (cursor.scanFrom []).1, (cursor.scanFrom []).2) := by
  induction hlength : cursor.rest.length using Nat.strongRecOn generalizing cursor before with
  | ind length ih =>
      cases hinside : cursor.inBounds with
      | false => simp [scanFrom_end, hinside]
      | true =>
          cases hcurrent : cursor.current with
          | error error => simp [cursor.scanFrom_error _ hinside hcurrent]
          | ok insn =>
              have hshorter := cursor.length_rest_skip_lt insn hinside
              have hrest := ih _ (hlength ▸ hshorter) (cursor.skip insn.wordCount)
              rw [cursor.scanFrom_ok _ hinside hcurrent, cursor.scanFrom_ok _ hinside hcurrent,
                hrest (insn :: before) rfl, hrest [insn] rfl]
              simp

/-- A fact about what is read from a place on follows from the place being at the end, or blocked,
or before an instruction and the fact about the place after it. -/
theorem scan_induction {motive : Cursor → List Instruction → Option ParseError → Prop}
    (finish : ∀ cursor : Cursor, cursor.inBounds = false → motive cursor [] none)
    (fault : ∀ (cursor : Cursor) (error : ParseError), cursor.inBounds = true →
      cursor.current = .error error → motive cursor [] (some error))
    (step : ∀ (cursor : Cursor) (insn : Instruction) (insns : List Instruction)
      (ending : Option ParseError), cursor.inBounds = true → cursor.current = .ok insn →
      motive (cursor.skip insn.wordCount) insns ending → motive cursor (insn :: insns) ending)
    (cursor : Cursor) : motive cursor (cursor.scanFrom []).1 (cursor.scanFrom []).2 := by
  induction hlength : cursor.rest.length using Nat.strongRecOn generalizing cursor with
  | ind length ih =>
      cases hinside : cursor.inBounds with
      | false =>
          rw [cursor.scanFrom_end _ hinside]
          exact finish cursor hinside
      | true =>
          cases hcurrent : cursor.current with
          | error error =>
              rw [cursor.scanFrom_error _ hinside hcurrent]
              exact fault cursor error hinside hcurrent
          | ok insn =>
              have hshorter := cursor.length_rest_skip_lt insn hinside
              rw [cursor.scanFrom_ok _ hinside hcurrent, scanFrom_eq]
              exact step cursor insn _ _ hinside hcurrent (ih _ (hlength ▸ hshorter) _ rfl)

/-- After an instruction has been read, moving on skips exactly its words. The count that moving on
looks at is the one that was read, so it is not zero. -/
theorem advance_of_current (cursor : Cursor) {insn : Instruction}
    (hcurrent : cursor.current = .ok insn) :
    cursor.advance = .ok (cursor.skip insn.wordCount) := by
  obtain ⟨-, hcount, hwords⟩ := (cursor.current_eq_ok_iff insn).mp hcurrent
  cases hrest : cursor.rest with
  | nil => simp [hrest, Instruction.words, Instruction.encode] at hwords
  | cons first following =>
      rw [hrest] at hwords
      have hsize : cursor.currentSize = insn.operands.length + 1 := by
        rw [currentSize, hrest]
        exact ((words_prefix_iff insn first following hcount).mp hwords).2.1
      rw [advance, hsize]
      rfl

end Cursor

/-- Instructions that follow each other without a gap from one place to another. -/
def Consecutive : Nat → List Instruction → Nat → Prop
  | place, [], stop => place = stop
  | place, insn :: rest, stop =>
      insn.offset = place ∧ Consecutive (place + insn.wordCount) rest stop

/-- How instructions and the error after them lie in a stream: the instructions cover the words
from `start` to `stop`, where either the stream ends or the error says why nothing can be read. -/
structure Tiling (words : List Word) (start : Nat) (insns : List Instruction)
    (ending : Option ParseError) (stop : Nat) : Prop where
  consecutive : Consecutive start insns stop
  /-- An instruction's opcode and word count are those of the word at its offset. -/
  counted : ∀ insn ∈ insns, ∃ first, words[insn.offset]? = some first ∧
    Instruction.opcodeOf first = insn.opcode ∧ Instruction.countOf first = insn.wordCount ∧
      insn.operands.length = insn.wordCount - 1
  /-- Written again, the instructions are the words that they cover. -/
  encoded : insns.flatMap Instruction.words = (words.take stop).drop start
  finished : ending = none → stop = words.length
  blocked : ∀ error, ending = some error → stop < words.length ∧ Cursor.Blocked words stop error

/-- Putting the instruction at a place in front of a tiling of what follows it. -/
theorem Tiling.cons {words : List Word} {insn : Instruction} {insns : List Instruction}
    {ending : Option ParseError} {stop : Nat} (hcount : insn.wordCount < 65536)
    (hwords : insn.words <+: words.drop insn.offset)
    (hrest : Tiling words (insn.offset + insn.wordCount) insns ending stop)
    (hstop : insn.offset + insn.wordCount ≤ stop) :
    Tiling words insn.offset (insn :: insns) ending stop where
  consecutive := ⟨rfl, hrest.consecutive⟩
  counted := by
    intro other hother
    rcases List.mem_cons.mp hother with rfl | hother
    · obtain ⟨following, hfollowing⟩ := hwords
      refine ⟨Instruction.firstWord other.opcode other.wordCount, ?_,
        Instruction.opcodeOf_firstWord _ _, Instruction.countOf_firstWord _ _ hcount, rfl⟩
      rw [← List.head?_drop, ← hfollowing]
      rfl
    · exact hrest.counted other hother
  encoded := by
    have htaken : insn.words <+: (words.take stop).drop insn.offset := by
      rw [List.drop_take]
      refine List.prefix_take_iff.mpr ⟨hwords, ?_⟩
      rw [insn.length_words]
      omega
    obtain ⟨following, hfollowing⟩ := htaken
    have hafter := congrArg (List.drop insn.wordCount) hfollowing
    rw [List.drop_drop, List.drop_left' insn.length_words] at hafter
    rw [List.flatMap_cons, hrest.encoded, ← hfollowing, hafter]
  finished := hrest.finished
  blocked := hrest.blocked

/-- What is read from a place inside a stream tiles the words from there on. -/
theorem Cursor.scanFrom_tiling (cursor : Cursor) (hplace : cursor.offset ≤ cursor.words.length) :
    ∃ stop, cursor.offset ≤ stop ∧
      Tiling cursor.words cursor.offset (cursor.scanFrom []).1 (cursor.scanFrom []).2 stop := by
  refine Cursor.scan_induction (motive := fun cursor insns ending =>
    cursor.offset ≤ cursor.words.length → ∃ stop, cursor.offset ≤ stop ∧
      Tiling cursor.words cursor.offset insns ending stop) ?finish ?fault ?step cursor hplace
  case finish =>
    intro cursor houtside hplace
    have hend : ¬ cursor.offset < cursor.words.length := by
      rw [← cursor.inBounds_iff, houtside]
      decide
    refine ⟨cursor.offset, Nat.le_refl _, rfl, by simp, by simp, fun _ => by omega, by simp⟩
  case fault =>
    intro cursor error hinside hcurrent _
    have hblocked := cursor.blocked_of_current hinside hcurrent
    have hplace := cursor.inBounds_iff.mp hinside
    refine ⟨cursor.offset, Nat.le_refl _, rfl, by simp, by simp, by simp, ?_⟩
    intro other hother
    obtain rfl := Option.some.inj hother
    exact ⟨hplace, hblocked⟩
  case step =>
    intro cursor insn insns ending hinside hcurrent ih hplace
    obtain ⟨hoffset, hcount, hwords⟩ := (cursor.current_eq_ok_iff insn).mp hcurrent
    have hlength := hwords.length_le
    rw [insn.length_words, cursor.rest_eq, List.length_drop] at hlength
    obtain ⟨stop, hstop, hrest⟩ := ih (by simp only [skip]; omega)
    rw [cursor.rest_eq] at hwords
    simp only [skip, ← hoffset] at hstop hrest hwords ⊢
    exact ⟨stop, by omega, hrest.cons hcount hwords hstop⟩

namespace Walk

/-- A walk that `next` leaves alone without giving anything stays silent. -/
theorem call_of_silent (walk : Walk) (hnext : walk.next = (none, walk)) (earlier : Nat) :
    walk.call earlier = none := by
  have hafter : walk.after earlier = walk := by
    induction earlier with
    | zero => rfl
    | succ calls ih => rw [after, hnext, ih]
  rw [call, hafter, hnext]

theorem next_end (cursor : Cursor) (names : NameTable) (houtside : cursor.inBounds = false) :
    (Walk.mk cursor names false).next = (none, Walk.mk cursor names false) := by
  simp [next, houtside]

theorem next_ended (cursor : Cursor) (names : NameTable) :
    (Walk.mk cursor names true).next = (none, Walk.mk cursor names true) := by
  simp [next]

theorem next_error (cursor : Cursor) (names : NameTable) {error : ParseError}
    (hinside : cursor.inBounds = true) (hcurrent : cursor.current = .error error) :
    (Walk.mk cursor names false).next = (some (.error error), Walk.mk cursor names true) := by
  simp [next, hinside, hcurrent]

theorem next_ok (cursor : Cursor) (names : NameTable) {insn : Instruction}
    (hinside : cursor.inBounds = true) (hcurrent : cursor.current = .ok insn) :
    (Walk.mk cursor names false).next =
      (some (.ok ⟨insn, names.opcodeName insn.opcode⟩),
        Walk.mk (cursor.skip insn.wordCount) names false) := by
  simp [next, hinside, hcurrent, cursor.advance_of_current hcurrent]

/-- What the calls of `next` give one after the other: the instructions that are read from the place
on, then the error that ends them, then nothing. -/
theorem call_eq (cursor : Cursor) (names : NameTable) (earlier : Nat) :
    (Walk.mk cursor names false).call earlier =
      ((cursor.scanFrom []).1.map (fun insn => .ok ⟨insn, names.opcodeName insn.opcode⟩) ++
        (cursor.scanFrom []).2.toList.map .error)[earlier]? := by
  refine Cursor.scan_induction (motive := fun cursor insns ending =>
    ∀ earlier, (Walk.mk cursor names false).call earlier =
      (insns.map (fun insn => .ok ⟨insn, names.opcodeName insn.opcode⟩) ++
        ending.toList.map .error)[earlier]?) ?finish ?fault ?step cursor earlier
  case finish =>
    intro cursor houtside earlier
    rw [call_of_silent _ (next_end cursor names houtside)]
    rfl
  case fault =>
    intro cursor error hinside hcurrent earlier
    cases earlier with
    | zero =>
        rw [call, after, next_error cursor names hinside hcurrent]
        rfl
    | succ calls =>
        have hsilent := call_of_silent _ (next_ended cursor names) calls
        rw [call, after, next_error cursor names hinside hcurrent]
        exact hsilent
  case step =>
    intro cursor insn insns ending hinside hcurrent ih earlier
    cases earlier with
    | zero =>
        rw [call, after, next_ok cursor names hinside hcurrent]
        rfl
    | succ calls =>
        rw [call, after, next_ok cursor names hinside hcurrent]
        exact ih calls

end Walk

namespace Decoder

theorem of_ofWords {names : NameTable} {words : List Word} {decoder : Decoder}
    (hopened : ofWords names words = .ok decoder) :
    decoder.words = words ∧ decoder.names = names ∧ headerLength ≤ words.length := by
  obtain ⟨header, hheader, hdecoder⟩ := bind_eq_ok_iff.mp hopened
  obtain rfl := Except.ok.inj hdecoder
  exact ⟨rfl, rfl, Header.headerLength_le_of_parse hheader⟩

/-- The calls of `next` give finitely many instructions, then at most one error, then nothing. The
instructions are the scanned ones, and they tile the stream from right after the header to its end
or to the error. -/
theorem instructions_tile {names : NameTable} {words : List Word} {decoder : Decoder}
    (hopened : ofWords names words = .ok decoder) :
    ∃ (given : List Decoded) (ending : Option ParseError) (stop : Nat),
      (∀ earlier, decoder.instructions.call earlier =
        (given.map .ok ++ ending.toList.map .error)[earlier]?) ∧
      scan words = (given.map (·.insn), ending) ∧
      (∀ decoded ∈ given, decoded.mnemonic = names.opcodeName decoded.insn.opcode) ∧
      Tiling words headerLength (given.map (·.insn)) ending stop := by
  obtain ⟨rfl, rfl, hheader⟩ := of_ofWords hopened
  let cursor := Cursor.ofWords decoder.words
  let decode : Instruction → Decoded := fun insn => ⟨insn, decoder.names.opcodeName insn.opcode⟩
  have hinsns : ((cursor.scanFrom []).1.map decode).map (·.insn) = (cursor.scanFrom []).1 := by
    rw [List.map_map]
    exact List.map_id _
  obtain ⟨stop, -, htiling⟩ := cursor.scanFrom_tiling hheader
  refine ⟨(cursor.scanFrom []).1.map decode, (cursor.scanFrom []).2, stop, ?_, ?_, ?_, ?_⟩
  · intro earlier
    rw [List.map_map]
    exact Walk.call_eq cursor decoder.names earlier
  · rw [hinsns]
    rfl
  · intro decoded hdecoded
    obtain ⟨insn, -, rfl⟩ := List.mem_map.mp hdecoded
    rfl
  · rw [hinsns]
    exact htiling

/-- A stream of one instruction before a word whose count is zero. -/
theorem instructions_tile_before_zero_count :
    let words : List Word :=
      [magicNumber, 0x10000, 0, 16, 0, Instruction.firstWord 17 2, 1, 19, 0x20011]
    let decoder : Decoder := ⟨words, ⟨magicNumber, 0x10000, 0, 16, 0⟩, .core⟩
    ofWords .core words = .ok decoder ∧
      ∃ (given : List Decoded) (ending : Option ParseError) (stop : Nat),
        (∀ earlier, decoder.instructions.call earlier =
          (given.map .ok ++ ending.toList.map .error)[earlier]?) ∧
        scan words = (given.map (·.insn), ending) ∧
        (∀ decoded ∈ given,
          decoded.mnemonic = NameTable.core.opcodeName decoded.insn.opcode) ∧
        Tiling words headerLength (given.map (·.insn)) ending stop := by
  intro words decoder
  have hopened : ofWords .core words = .ok decoder := rfl
  exact ⟨hopened, instructions_tile hopened⟩

end Decoder

end ShaderReflection
