import ShaderReflection.Proofs.Fallible
import ShaderReflection.Proofs.Text.Blank
import ShaderReflection.Proofs.Text.Numeral
import ShaderReflection.VertexInput.Request

/-!
The grammar of requests for vertex input: which arguments describe a buffer, which buffer that is,
and what is reported about an argument that describes none. Buffers that are written in decimal are
read back.
-/

namespace ShaderReflection.VertexInputRequest

/-- A buffer as an argument: the keyword and the locations in decimal, separated by commas. -/
def written (buffer : List Word) : String := keyword ++ ",".intercalate (buffer.map toString)

/-- Whether the pieces of a text are its parts between commas. -/
def SplitsInto (text : List Char) (parts : List (List Char)) : Prop :=
  text = [','].intercalate parts ∧ parts ≠ [] ∧ ∀ part ∈ parts, ',' ∉ part

/-- Whether an argument lists some numerals: they are the pieces after the keyword that are not all
blank, without the blanks around them. -/
def Lists (argument : String) (numerals : List (List Char)) : Prop :=
  ∃ list parts inners, argument.toList = keyword.toList ++ list ∧ SplitsInto list parts ∧
    List.Forall₂ Blank.Trimmed parts inners ∧ numerals = inners.filter (· ≠ [])

/-- Whether an argument describes a buffer. -/
def Describes (argument : String) (buffer : List Word) : Prop :=
  ∃ numerals, Lists argument numerals ∧ List.Forall₂ Numeral.Denotes numerals buffer

/-- Whether an argument begins with the keyword, and lists numerals of words only. -/
def Readable (argument : String) : Prop :=
  ∃ numerals, Lists argument numerals ∧
    ∀ numeral ∈ numerals, ∃ location, Numeral.Denotes numeral location

/-- Whether an error is the one to report about an argument: that it does not begin with the
keyword, or the first text it lists that is no numeral of a word. -/
def Reports (argument : String) : VertexInputError → Prop
  | .unknownArgument blamed =>
      blamed = argument ∧ ∀ list, argument.toList ≠ keyword.toList ++ list
  | .invalidLocation blamed value =>
      blamed = argument ∧ ∃ before after, Lists argument (before ++ value.toList :: after) ∧
        (∀ earlier ∈ before, ∃ location, Numeral.Denotes earlier location) ∧
        ∀ location, ¬ Numeral.Denotes value.toList location
  | _ => False

section Pieces

variable {text : List Char} {parts : List (List Char)}

theorem pieces_cons (c : Char) (text : List Char) :
    pieces (c :: text) =
      if c = ',' then [] :: pieces text else (pieces text).modifyHead (c :: ·) := by
  unfold pieces
  rw [List.foldr_cons]
  split_ifs <;> rfl

theorem pieces_eq_splitOn (text : List Char) : pieces text = text.splitOn ',' := by
  induction text with
  | nil => rfl
  | cons c rest ih =>
      rw [pieces_cons, ih, List.splitOn_cons_eq_if_modifyHead]
      simp only [beq_iff_eq]

theorem comma_notMem_of_mem_pieces {part : List Char} (h : part ∈ pieces text) : ',' ∉ part := by
  induction text generalizing part with
  | nil =>
      obtain rfl := List.mem_singleton.mp h
      exact List.not_mem_nil
  | cons c rest ih =>
      rw [pieces_cons] at h
      split_ifs at h with hcomma
      · rcases List.mem_cons.mp h with rfl | h
        · exact List.not_mem_nil
        · exact ih h
      · cases hpieces : pieces rest with
        | nil =>
            rw [hpieces] at h
            exact absurd h List.not_mem_nil
        | cons first others =>
            rw [hpieces] at h ih
            rcases List.mem_cons.mp h with rfl | h
            · exact List.not_mem_cons_of_ne_of_not_mem (Ne.symm hcomma) (ih List.mem_cons_self)
            · exact ih (List.mem_cons_of_mem _ h)

theorem pieces_eq_iff : pieces text = parts ↔ SplitsInto text parts := by
  constructor
  · rintro rfl
    refine ⟨?_, ?_, fun part => comma_notMem_of_mem_pieces⟩
    · rw [pieces_eq_splitOn, List.intercalate_splitOn]
    · rw [pieces_eq_splitOn]
      exact List.splitOn_ne_nil _ _
  · rintro ⟨rfl, hparts, hcommas⟩
    rw [pieces_eq_splitOn, List.splitOn_intercalate _ hcommas hparts]

end Pieces

section Arguments

variable {argument : String} {list : List Char} {numerals : List (List Char)} {buffer : List Word}
  {error : VertexInputError}

/-- The numerals in a list. -/
def listed (list : List Char) : List (List Char) :=
  ((pieces list).map Blank.trim).filter (!·.isEmpty)

theorem listed_eq_iff :
    listed list = numerals ↔ ∃ parts inners, SplitsInto list parts ∧
      List.Forall₂ Blank.Trimmed parts inners ∧ numerals = inners.filter (· ≠ []) := by
  have hfilter : ∀ inners : List (List Char),
      inners.filter (!·.isEmpty) = inners.filter (· ≠ []) := by
    intro inners
    refine List.filter_congr fun inner _ => ?_
    cases inner <;> rfl
  have htrim : ∀ parts inners,
      List.Forall₂ Blank.Trimmed parts inners ↔ parts.map Blank.trim = inners := by
    intro parts inners
    rw [← List.forall₂_eq_eq_eq, List.forall₂_map_left_iff]
    simp only [Blank.trim_eq_iff]
  constructor
  · rintro rfl
    exact ⟨pieces list, (pieces list).map Blank.trim, pieces_eq_iff.mp rfl, (htrim _ _).mpr rfl,
      hfilter _⟩
  · rintro ⟨parts, inners, hparts, hinners, rfl⟩
    rw [listed, pieces_eq_iff.mpr hparts, (htrim parts inners).mp hinners, hfilter]

theorem lists_iff (h : argument.toList = keyword.toList ++ list) :
    Lists argument numerals ↔ listed list = numerals := by
  rw [listed_eq_iff]
  constructor
  · rintro ⟨other, parts, inners, hother, hlists⟩
    obtain rfl := List.append_cancel_left (h.symm.trans hother)
    exact ⟨parts, inners, hlists⟩
  · rintro ⟨parts, inners, hlists⟩
    exact ⟨list, parts, inners, h, hlists⟩

theorem not_lists (h : ∀ list, argument.toList ≠ keyword.toList ++ list) :
    ¬ Lists argument numerals := by
  rintro ⟨list, -, -, hlist, -⟩
  exact h list hlist

theorem parseBuffer_of_keyword (h : argument.toList = keyword.toList ++ list) :
    parseBuffer argument = parseLocations argument list := by
  have hprefix : hasKeyword argument = true := by
    rw [hasKeyword, List.isPrefixOf_iff_prefix, h]
    exact List.prefix_append _ _
  have hlist : argument.toList.drop keyword.length = list := by
    rw [h, ← String.length_toList, List.drop_left]
  rw [parseBuffer, if_pos hprefix, hlist]

theorem parseBuffer_of_no_keyword (h : ∀ list, argument.toList ≠ keyword.toList ++ list) :
    parseBuffer argument = .error (.unknownArgument argument) := by
  refine if_neg fun hprefix => ?_
  rw [hasKeyword, List.isPrefixOf_iff_prefix] at hprefix
  obtain ⟨list, hlist⟩ := hprefix
  exact h list hlist.symm

/-- The location that a numeral denotes. -/
def parseLocation (argument : String) (numeral : List Char) : Except VertexInputError Word :=
  match Numeral.word? numeral with
  | some location => .ok location
  | none => .error (.invalidLocation argument (String.ofList numeral))

theorem parseLocations_eq (argument : String) (list : List Char) :
    parseLocations argument list = (listed list).mapM (parseLocation argument) := rfl

theorem parseLocation_eq_ok_iff {numeral : List Char} {location : Word} :
    parseLocation argument numeral = .ok location ↔ Numeral.Denotes numeral location := by
  rw [← Numeral.word?_eq_some_iff, parseLocation]
  cases Numeral.word? numeral <;> simp

theorem parseLocation_eq_error_iff {numeral : List Char} :
    parseLocation argument numeral = .error error ↔
      error = .invalidLocation argument (String.ofList numeral) ∧
        ∀ location, ¬ Numeral.Denotes numeral location := by
  simp only [← Numeral.word?_eq_some_iff, parseLocation]
  cases Numeral.word? numeral <;> simp [eq_comm]

theorem parseBuffer_eq_ok_iff : parseBuffer argument = .ok buffer ↔ Describes argument buffer := by
  by_cases hkeyword : ∃ list, argument.toList = keyword.toList ++ list
  · obtain ⟨list, hlist⟩ := hkeyword
    rw [parseBuffer_of_keyword hlist, parseLocations_eq, mapM_eq_ok_iff]
    simp only [Describes, lists_iff hlist, parseLocation_eq_ok_iff, exists_eq_left']
  · rw [not_exists] at hkeyword
    rw [parseBuffer_of_no_keyword hkeyword]
    simp only [Describes, not_lists hkeyword, reduceCtorEq, false_and, exists_false]

theorem parseLocations_eq_error_iff :
    parseLocations argument list = .error error ↔
      ∃ before numeral after, listed list = before ++ numeral :: after ∧
        (∀ earlier ∈ before, ∃ location, Numeral.Denotes earlier location) ∧
        error = .invalidLocation argument (String.ofList numeral) ∧
        ∀ location, ¬ Numeral.Denotes numeral location := by
  rw [parseLocations_eq, mapM_eq_error_iff, FailsFirst]
  simp only [parseLocation_eq_ok_iff, parseLocation_eq_error_iff]

theorem parseBuffer_eq_error_iff : parseBuffer argument = .error error ↔ Reports argument error := by
  by_cases hkeyword : ∃ list, argument.toList = keyword.toList ++ list
  · obtain ⟨list, hlist⟩ := hkeyword
    rw [parseBuffer_of_keyword hlist, parseLocations_eq_error_iff]
    cases error with
    | invalidLocation blamed value =>
        simp only [Reports, lists_iff hlist, VertexInputError.invalidLocation.injEq]
        constructor
        · rintro ⟨before, numeral, after, hlisted, hbefore, ⟨rfl, rfl⟩, hbad⟩
          rw [String.toList_ofList]
          exact ⟨rfl, before, after, hlisted, hbefore, hbad⟩
        · rintro ⟨rfl, before, after, hlisted, hbefore, hbad⟩
          exact ⟨before, value.toList, after, hlisted, hbefore,
            ⟨rfl, String.ofList_toList.symm⟩, hbad⟩
    | unknownArgument blamed =>
        simp only [Reports, reduceCtorEq, false_and, and_false, exists_false, false_iff, not_and]
        exact fun _ hno => hno list hlist
    | _ => simp [Reports]
  · rw [not_exists] at hkeyword
    rw [parseBuffer_of_no_keyword hkeyword]
    cases error with
    | unknownArgument blamed =>
        simp only [Reports, Except.error.injEq, VertexInputError.unknownArgument.injEq, eq_comm,
          iff_self_and]
        exact fun _ => hkeyword
    | _ => simp [Reports, not_lists hkeyword]

theorem exists_describes_iff : (∃ buffer, Describes argument buffer) ↔ Readable argument := by
  simp only [Describes, Readable, ← exists_forall₂_iff]
  constructor
  · rintro ⟨buffer, numerals, hlists, hdenotes⟩
    exact ⟨numerals, hlists, buffer, hdenotes⟩
  · rintro ⟨numerals, hlists, buffer, hdenotes⟩
    exact ⟨buffer, numerals, hlists, hdenotes⟩

end Arguments

section Requests

variable {arguments : List String} {request : VertexInputRequest} {error : VertexInputError}

theorem parse_eq_ok_iff :
    parse arguments = .ok request ↔ List.Forall₂ Describes arguments request.buffers := by
  have hbuffers : ∀ buffers, arguments.mapM parseBuffer = .ok buffers ↔
      List.Forall₂ Describes arguments buffers := by
    intro buffers
    rw [mapM_eq_ok_iff]
    simp only [parseBuffer_eq_ok_iff]
  rw [← hbuffers, parse]
  cases arguments.mapM parseBuffer with
  | error _ => simp [Except.map]
  | ok buffers => cases request; simp [Except.map]

theorem parse_succeeds_iff :
    (∃ request, parse arguments = .ok request) ↔ ∀ argument ∈ arguments, Readable argument := by
  simp only [parse_eq_ok_iff, ← exists_describes_iff, ← exists_forall₂_iff]
  exact ⟨fun ⟨request, h⟩ => ⟨request.buffers, h⟩, fun ⟨buffers, h⟩ => ⟨⟨buffers⟩, h⟩⟩

theorem parse_eq_error_iff :
    parse arguments = .error error ↔
      ∃ before argument after, arguments = before ++ argument :: after ∧
        (∀ earlier ∈ before, Readable earlier) ∧ Reports argument error := by
  rw [parse, map_eq_error_iff, mapM_eq_error_iff, FailsFirst]
  simp only [parseBuffer_eq_ok_iff, exists_describes_iff, parseBuffer_eq_error_iff]

end Requests

section Writing

theorem not_isBlank_of_isDigit {c : Char} (h : c.isDigit = true) : ¬ Blank.isBlank c = true := by
  have hlow : 48 ≤ c.toNat := (Char.isDigit_iff_toNat.mp h).1
  have hhigh : c.toNat ≤ 57 := (Char.isDigit_iff_toNat.mp h).2
  simp only [Blank.isBlank, Blank.ranges, List.any_cons, List.any_nil, Bool.or_false,
    Bool.or_eq_true, Bool.and_eq_true, decide_eq_true_eq]
  omega

theorem comma_notMem_toString (location : Word) : ',' ∉ (toString location).toList := by
  intro h
  exact absurd (Numeral.isDigit_of_mem_toString location h) (by decide)

theorem trimmed_toString (location : Word) :
    Blank.Trimmed (toString location).toList (toString location).toList := by
  have hdigit : ∀ c ∈ (toString location).toList, ¬ Blank.isBlank c = true := fun c hc =>
    not_isBlank_of_isDigit (Numeral.isDigit_of_mem_toString location hc)
  refine ⟨[], [], by simp, by simp, by simp, ?_, ?_⟩
  · exact fun c hc => hdigit c (List.mem_of_mem_head? hc)
  · exact fun c hc => hdigit c (List.mem_of_getLast? hc)

theorem toList_written (buffer : List Word) :
    (written buffer).toList = keyword.toList ++
      [','].intercalate (buffer.map fun location => (toString location).toList) := by
  rw [written, String.toList_append, String.toList_intercalate, List.map_map]
  rfl

theorem lists_written (buffer : List Word) :
    Lists (written buffer) (buffer.map fun location => (toString location).toList) := by
  have htexts : ∀ text ∈ buffer.map fun location => (toString location).toList,
      ',' ∉ text ∧ Blank.Trimmed text text ∧ text ≠ [] := by
    intro text htext
    obtain ⟨location, -, rfl⟩ := List.mem_map.mp htext
    exact ⟨comma_notMem_toString location, trimmed_toString location,
      (Numeral.denotes_toString location).ne_nil⟩
  have htoList := toList_written buffer
  generalize buffer.map (fun location => (toString location).toList) = texts at htexts htoList
  by_cases hempty : texts = []
  · -- An empty list still has one piece, which is passed over.
    subst hempty
    refine ⟨[], [[]], [[]], htoList, ⟨rfl, List.cons_ne_nil _ _, by simp⟩, ?_, rfl⟩
    exact .cons ⟨[], [], by simp⟩ .nil
  · refine ⟨_, texts, texts, htoList, ⟨rfl, hempty, fun text htext => (htexts text htext).1⟩, ?_, ?_⟩
    · exact List.forall₂_same.mpr fun text htext => (htexts text htext).2.1
    · symm
      exact List.filter_eq_self.mpr fun text htext => by simpa using (htexts text htext).2.2

theorem describes_written (buffer : List Word) : Describes (written buffer) buffer := by
  refine ⟨_, lists_written buffer, ?_⟩
  rw [List.forall₂_map_left_iff, List.forall₂_same]
  exact fun location _ => Numeral.denotes_toString location

theorem parse_written (buffers : List (List Word)) : parse (buffers.map written) = .ok ⟨buffers⟩ := by
  rw [parse_eq_ok_iff, List.forall₂_map_left_iff, List.forall₂_same]
  exact fun buffer _ => describes_written buffer

end Writing

/-- Requests are read exactly as their grammar says: what is written in decimal comes back, an
argument for each buffer is read exactly if it is in the grammar, as the buffer it describes, and
the error is otherwise that of the first argument that is not. -/
theorem requests_parse_exactly :
    (∀ buffers : List (List Word), parse (buffers.map written) = .ok ⟨buffers⟩) ∧
    ∀ arguments : List String,
      ((∃ request, parse arguments = .ok request) ↔
        ∀ argument ∈ arguments, Readable argument) ∧
      (∀ request, parse arguments = .ok request ↔
        List.Forall₂ Describes arguments request.buffers) ∧
      (∀ error, parse arguments = .error error ↔
        ∃ before argument after, arguments = before ++ argument :: after ∧
          (∀ earlier ∈ before, Readable earlier) ∧ Reports argument error) :=
  ⟨parse_written, fun _ => ⟨parse_succeeds_iff, fun _ => parse_eq_ok_iff,
    fun _ => parse_eq_error_iff⟩⟩

example : parse ["input=+007,\u2003,\t1 ", "input="] = .ok ⟨[[7, 1], []]⟩ := by decide +kernel

example : parse ["input=0", "input=4294967295, 4294967296 ,x", "output=1"] =
    .error (.invalidLocation "input=4294967295, 4294967296 ,x" "4294967296") := by decide +kernel

end ShaderReflection.VertexInputRequest
