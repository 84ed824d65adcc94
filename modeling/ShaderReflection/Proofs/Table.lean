import Mathlib.Data.List.Induction
import Mathlib.Data.List.Nodup
import Mathlib.Tactic.SplitIfs
import Std.Data.ExtTreeMap.Lemmas

/-!
What stays in a table that is filled with one entry after another. A table follows one of three
rules: the last entry under a key stays, or the first one does, or all of them do in order.
-/

namespace ShaderReflection

section Entries

variable {κ α : Type} [BEq κ]

/-- The first of the entries under a key. -/
def firstUnder (key : κ) (entries : List (κ × α)) : Option α := entries.lookup key

/-- The last of the entries under a key. -/
def lastUnder (key : κ) (entries : List (κ × α)) : Option α := entries.reverse.lookup key

/-- All entries under a key, in order. -/
def allUnder (key : κ) (entries : List (κ × α)) : List α :=
  (entries.filter (·.1 == key)).map (·.2)

/-- The entries whose key no earlier entry has, in order. -/
def firsts (entries : List (κ × α)) : List (κ × α) :=
  (entries.zipIdx.filter fun (entry, place) =>
    (firstUnder entry.1 (entries.take place)).isNone).map (·.1)

theorem lookup_append (key : κ) (first second : List (κ × α)) :
    (first ++ second).lookup key = (first.lookup key).or (second.lookup key) := by
  induction first with
  | nil => rfl
  | cons entry rest ih =>
      obtain ⟨other, value⟩ := entry
      rw [List.cons_append, List.lookup_cons, List.lookup_cons, ih]
      cases key == other <;> rfl

theorem firstUnder_append (key : κ) (first second : List (κ × α)) :
    firstUnder key (first ++ second) = (firstUnder key first).or (firstUnder key second) :=
  lookup_append key first second

theorem lastUnder_append (key : κ) (first second : List (κ × α)) :
    lastUnder key (first ++ second) = (lastUnder key second).or (lastUnder key first) := by
  rw [lastUnder, List.reverse_append, lookup_append]
  rfl

/-- An entry put behind others joins the first ones if its key is new. -/
theorem firsts_append_singleton (entries : List (κ × α)) (entry : κ × α) :
    firsts (entries ++ [entry]) =
      firsts entries ++ [entry].filter fun entry => (firstUnder entry.1 entries).isNone := by
  have hearlier : ∀ item ∈ entries.zipIdx,
      (firstUnder item.1.1 ((entries ++ [entry]).take item.2)).isNone =
        (firstUnder item.1.1 (entries.take item.2)).isNone := by
    intro item hitem
    have hplace := List.snd_lt_of_mem_zipIdx hitem
    rw [List.take_append_of_le_length (by omega)]
  have hlast : (entries ++ [entry]).take entries.length = entries :=
    List.take_left' rfl
  rw [firsts, List.zipIdx_append, List.filter_append, List.map_append,
    List.filter_congr hearlier]
  simp only [Nat.zero_add, List.zipIdx_singleton, List.filter_cons, List.filter_nil, hlast]
  cases hnew : (firstUnder entry.1 entries).isNone <;> simp [firsts]

theorem firsts_sublist (entries : List (κ × α)) : (firsts entries).Sublist entries := by
  have hsublist := (List.filter_sublist (l := entries.zipIdx) (p := fun item =>
    (firstUnder item.1.1 (entries.take item.2)).isNone)).map Prod.fst
  rwa [List.zipIdx_map_fst] at hsublist

theorem nodup_map_fst_firsts [LawfulBEq κ] (entries : List (κ × α)) :
    ((firsts entries).map (·.1)).Nodup := by
  induction entries using List.reverseRecOn with
  | nil => exact List.nodup_nil
  | append_singleton entries entry ih =>
      rw [firsts_append_singleton]
      cases hnew : (firstUnder entry.1 entries).isNone with
      | false => simpa [hnew] using ih
      | true =>
          have hfresh := List.lookup_eq_none_iff.mp (Option.isNone_iff_eq_none.mp hnew)
          have hkey : entry.1 ∉ (firsts entries).map (·.1) := by
            intro hkey
            obtain ⟨earlier, hearlier, hsame⟩ := List.mem_map.mp hkey
            have hother := hfresh earlier ((firsts_sublist entries).subset hearlier)
            simp [hsame] at hother
          simp only [hnew, List.filter_cons_of_pos, List.filter_nil, List.map_append]
          rw [List.map_singleton, ← List.concat_eq_append]
          exact List.Nodup.concat hkey ih

theorem allUnder_append (key : κ) (first second : List (κ × α)) :
    allUnder key (first ++ second) = allUnder key first ++ allUnder key second := by
  rw [allUnder, List.filter_append, List.map_append]
  rfl

theorem allUnder_eq_nil_iff [LawfulBEq κ] {key : κ} {entries : List (κ × α)} :
    allUnder key entries = [] ↔ ∀ entry ∈ entries, entry.1 ≠ key := by
  simp [allUnder, List.filter_eq_nil_iff]

theorem lookup_eq_find? [LawfulBEq κ] (key : κ) (entries : List (κ × α)) :
    entries.lookup key = (entries.find? (·.1 == key)).map (·.2) := by
  induction entries with
  | nil => rfl
  | cons entry rest ih =>
      obtain ⟨other, value⟩ := entry
      rw [List.lookup_cons, List.find?_cons, BEq.comm]
      cases other == key with
      | true => rfl
      | false => exact ih

theorem lookup_eq_none_iff_notMem [LawfulBEq κ] {key : κ} {entries : List (κ × α)} :
    entries.lookup key = none ↔ ∀ value, (key, value) ∉ entries := by
  rw [List.lookup_eq_none_iff]
  constructor
  · intro h value hentry
    exact absurd rfl (bne_iff_ne.mp (h (key, value) hentry))
  · rintro h ⟨other, value⟩ hentry
    refine bne_iff_ne.mpr ?_
    rintro rfl
    exact h value hentry

/-- The first entry under a key in lists that stand one after another is in the first of the lists
that has one. -/
theorem lookup_flatMap {ι : Type} (key : κ) (items : List ι) (listed : ι → List (κ × α)) :
    (items.flatMap listed).lookup key = items.findSome? fun item => (listed item).lookup key := by
  induction items with
  | nil => rfl
  | cons item rest ih =>
      rw [List.flatMap_cons, lookup_append, ih, List.findSome?_cons]
      cases (listed item).lookup key <;> rfl

/-- The last entry under a key is the last of all entries under it. -/
theorem lastUnder_eq_getLast? [LawfulBEq κ] (key : κ) (entries : List (κ × α)) :
    lastUnder key entries = (allUnder key entries).getLast? := by
  rw [lastUnder, lookup_eq_find?, allUnder, ← List.head?_filter, List.filter_reverse,
    List.head?_reverse, List.getLast?_map]

end Entries

section Singletons

variable {κ α : Type} [BEq κ] [LawfulBEq κ] [DecidableEq κ]

theorem firstUnder_singleton (key other : κ) (value : α) :
    firstUnder key [(other, value)] = if other = key then some value else none := by
  by_cases hkey : other = key
  · simp [firstUnder, hkey]
  · have hne : (key == other) = false := beq_false_of_ne (Ne.symm hkey)
    rw [if_neg hkey, firstUnder, List.lookup_cons, hne]
    rfl

theorem lastUnder_singleton (key other : κ) (value : α) :
    lastUnder key [(other, value)] = if other = key then some value else none :=
  firstUnder_singleton key other value

theorem allUnder_singleton (key other : κ) (value : α) :
    allUnder key [(other, value)] = if other = key then [value] else [] := by
  by_cases hkey : other = key <;> simp [allUnder, hkey]

end Singletons

theorem filterMap_cons_eq {ι α : Type} (given : ι → Option α) (item : ι) (rest : List ι) :
    (item :: rest).filterMap given = (given item).toList ++ rest.filterMap given := by
  cases hitem : given item <;> simp [hitem]

section Folds

variable {σ ι κ α : Type} [BEq κ] (step : σ → ι → σ) (given : ι → Option (κ × α))

theorem foldl_firstUnder (read : σ → κ → Option α)
    (hstep : ∀ state item key, read (step state item) key =
      (read state key).or (firstUnder key (given item).toList))
    (state : σ) (items : List ι) (key : κ) :
    read (items.foldl step state) key =
      (read state key).or (firstUnder key (items.filterMap given)) := by
  induction items generalizing state with
  | nil => exact (Option.or_none).symm
  | cons item rest ih =>
      rw [List.foldl_cons, ih, hstep, filterMap_cons_eq, firstUnder_append, Option.or_assoc]

theorem foldl_lastUnder (read : σ → κ → Option α)
    (hstep : ∀ state item key, read (step state item) key =
      (lastUnder key (given item).toList).or (read state key))
    (state : σ) (items : List ι) (key : κ) :
    read (items.foldl step state) key =
      (lastUnder key (items.filterMap given)).or (read state key) := by
  induction items generalizing state with
  | nil => rfl
  | cons item rest ih =>
      rw [List.foldl_cons, ih, hstep, filterMap_cons_eq, lastUnder_append, Option.or_assoc]

theorem foldl_allUnder (read : σ → κ → List α)
    (hstep : ∀ state item key, read (step state item) key =
      read state key ++ allUnder key (given item).toList)
    (state : σ) (items : List ι) (key : κ) :
    read (items.foldl step state) key =
      read state key ++ allUnder key (items.filterMap given) := by
  induction items generalizing state with
  | nil => exact (List.append_nil _).symm
  | cons item rest ih =>
      rw [List.foldl_cons, ih, hstep, filterMap_cons_eq, allUnder_append, List.append_assoc]

end Folds

section Maps

variable {κ α : Type} [Ord κ] [Std.TransOrd κ] [Std.LawfulEqOrd κ] [DecidableEq κ]

theorem getElem?_insert_entry (table : Std.ExtTreeMap κ α) (key id : κ) (value : α) :
    (table.insert key value)[id]? = if key = id then some value else table[id]? := by
  rw [Std.ExtTreeMap.getElem?_insert]
  simp only [Std.compare_eq_iff_eq]

theorem getElem?_insertIfNew_entry (table : Std.ExtTreeMap κ α) (key id : κ) (value : α) :
    (table.insertIfNew key value)[id]? =
      (table[id]?).or (if key = id then some value else none) := by
  rw [Std.ExtTreeMap.getElem?_insertIfNew]
  simp only [Std.compare_eq_iff_eq, Std.ExtTreeMap.mem_iff_isSome_getElem?]
  by_cases hkey : key = id
  · subst hkey
    cases hold : table[key]? <;> simp
  · simp [hkey]

theorem getElem?_alter_entry (table : Std.ExtTreeMap κ α) (key id : κ)
    (change : Option α → Option α) :
    (table.alter key change)[id]? = if key = id then change table[id]? else table[id]? := by
  rw [Std.ExtTreeMap.getElem?_alter]
  simp only [Std.compare_eq_iff_eq]
  split_ifs with hkey
  · rw [hkey]
  · rfl

end Maps

end ShaderReflection
