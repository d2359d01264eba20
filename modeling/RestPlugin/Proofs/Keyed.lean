import Mathlib.Data.List.Induction
import Mathlib.Data.List.Nodup
import Mathlib.Data.List.Perm.Basic
import Mathlib.Data.String.Basic
import RestPlugin.Keyed

/-!
# Ascending keyed lists

A keyed list with ascending keys is determined by the values it has under the keys.  `insert` keeps
the keys ascending and changes the value of one key, so `sorted` is a canonical form: it forgets the
order of entries with different keys and nothing else.
-/

namespace RestPlugin.Keyed

variable {α β : Type}

/-- The keys ascend, so that no key occurs twice. -/
def Ascending (entries : List (String × α)) : Prop :=
  entries.Pairwise fun first second => first.1 < second.1

/-- No key occurs twice. -/
def Distinct (entries : List (String × α)) : Prop := (entries.map (·.1)).Nodup

instance (entries : List (String × α)) : Decidable (Distinct entries) :=
  inferInstanceAs (Decidable (entries.map (·.1)).Nodup)

/-! ## Values under keys -/

@[simp]
theorem get?_nil (key : String) : get? key ([] : List (String × α)) = none := rfl

theorem get?_cons (key : String) (entry : String × α) (rest : List (String × α)) :
    get? key (entry :: rest) = if entry.1 = key then some entry.2 else get? key rest := by
  rcases entry with ⟨k, value⟩
  simp [get?]

/-- A value under a key is an entry with this key. -/
theorem mem_of_get?_eq_some {key : String} {value : α} {entries : List (String × α)}
    (found : get? key entries = some value) : (key, value) ∈ entries := by
  induction entries with
  | nil => cases found
  | cons entry rest ih =>
      rw [get?_cons] at found
      split at found
      · rename_i keyEq
        cases found
        rw [← keyEq]
        exact List.mem_cons_self
      · exact List.mem_cons_of_mem _ (ih found)

/-- There is a value under a key exactly if the key occurs. -/
theorem get?_isSome_iff {key : String} {entries : List (String × α)} :
    (get? key entries).isSome ↔ key ∈ entries.map (·.1) := by
  induction entries with
  | nil => simp
  | cons entry rest ih =>
      rw [get?_cons, List.map_cons, List.mem_cons, ← ih]
      by_cases keyEq : entry.1 = key
      · simp [keyEq]
      · simp [keyEq, Ne.symm keyEq]

/-- A list contains a key exactly if the key occurs. -/
theorem contains_iff {key : String} {entries : List (String × α)} :
    contains key entries = true ↔ key ∈ entries.map (·.1) := get?_isSome_iff

/-- Where no key occurs twice, an entry is what its key leads to. -/
theorem Distinct.get?_eq_some_iff {entries : List (String × α)} (distinct : Distinct entries)
    {key : String} {value : α} : get? key entries = some value ↔ (key, value) ∈ entries := by
  refine ⟨mem_of_get?_eq_some, ?_⟩
  intro member
  induction entries with
  | nil => cases member
  | cons entry rest ih =>
      rw [Distinct, List.map_cons, List.nodup_cons] at distinct
      rw [get?_cons]
      rcases List.mem_cons.mp member with entryEq | inRest
      · simp [← entryEq]
      · have keyNe : entry.1 ≠ key := by
          intro keyEq
          apply distinct.1
          rw [keyEq]
          exact List.mem_map_of_mem inRest
        rw [if_neg keyNe]
        exact ih distinct.2 inRest

/-- With different keys, the values under them do not depend on the order of the entries. -/
theorem Distinct.get?_eq_of_perm {first second : List (String × α)} (distinct : Distinct first)
    (perm : first.Perm second) (key : String) : get? key first = get? key second := by
  have distinct' : Distinct second := (perm.map _).nodup_iff.mp distinct
  apply Option.ext
  intro value
  rw [distinct.get?_eq_some_iff, distinct'.get?_eq_some_iff, perm.mem_iff]

theorem get?_mapValues (f : α → β) (key : String) (entries : List (String × α)) :
    get? key (mapValues f entries) = (get? key entries).map f := by
  induction entries with
  | nil => rfl
  | cons entry rest ih =>
      rw [mapValues, List.map_cons, get?_cons, get?_cons]
      split
      · rfl
      · exact ih

@[simp]
theorem map_fst_mapValues (f : α → β) (entries : List (String × α)) :
    (mapValues f entries).map (·.1) = entries.map (·.1) := by
  simp [mapValues]

/-- Mapping the values keeps the keys different. -/
theorem Distinct.mapValues {entries : List (String × α)} (distinct : Distinct entries)
    (f : α → β) : Distinct (mapValues f entries) := by
  rw [Distinct, map_fst_mapValues]
  exact distinct

/-! ## Ascending keys -/

theorem Distinct.nodup {entries : List (String × α)} (distinct : Distinct entries) :
    entries.Nodup := List.Nodup.of_map _ distinct

/-- Ascending keys are different. -/
theorem Ascending.distinct {entries : List (String × α)} (ascending : Ascending entries) :
    Distinct entries :=
  (List.pairwise_map.mpr ascending).imp fun less => ne_of_lt less

/-- A list with ascending keys is determined by its values. -/
theorem Ascending.ext {first second : List (String × α)} (firstAsc : Ascending first)
    (secondAsc : Ascending second) (same : ∀ key, get? key first = get? key second) :
    first = second := by
  have perm : first.Perm second := by
    rw [List.perm_ext_iff_of_nodup firstAsc.distinct.nodup secondAsc.distinct.nodup]
    rintro ⟨key, value⟩
    rw [← firstAsc.distinct.get?_eq_some_iff, ← secondAsc.distinct.get?_eq_some_iff, same]
  refine perm.eq_of_pairwise ?_ firstAsc secondAsc
  intro _ _ _ _ less greater
  exact absurd (less.trans greater) (lt_irrefl _)

theorem Ascending.mapValues {entries : List (String × α)} (ascending : Ascending entries)
    (f : α → β) : Ascending (mapValues f entries) :=
  List.pairwise_map.mpr ascending

/-! ## Inserting -/

/-- Inserting sets the value of one key. -/
theorem get?_insert (key wanted : String) (value : α) (entries : List (String × α)) :
    get? wanted (insert key value entries) =
      if key = wanted then some value else get? wanted entries := by
  induction entries with
  | nil => rw [insert, get?_cons]
  | cons entry rest ih =>
      rcases entry with ⟨k, old⟩
      rw [insert]
      split
      · rw [get?_cons]
      · split
        · rename_i keyEq
          rw [get?_cons, get?_cons, eq_of_beq keyEq]
          split <;> rfl
        · rename_i keyNe
          have keyNe : k ≠ key := fun keyEq => keyNe (beq_of_eq keyEq)
          rw [get?_cons, get?_cons, ih]
          by_cases atHead : k = wanted
          · simp [atHead, show key ≠ wanted from fun h => keyNe (atHead.trans h.symm)]
          · simp [atHead]

/-- Setting a value in place sets the value of one key as well. -/
theorem get?_put (key wanted : String) (value : α) (entries : List (String × α)) :
    get? wanted (put key value entries) =
      if key = wanted then some value else get? wanted entries := by
  induction entries with
  | nil => rw [put, get?_cons]
  | cons entry rest ih =>
      rcases entry with ⟨k, old⟩
      rw [put]
      split
      · rename_i keyEq
        rw [get?_cons, get?_cons, eq_of_beq keyEq]
        split <;> rfl
      · rename_i keyNe
        rw [get?_cons, get?_cons, ih]
        by_cases atHead : k = wanted
        · have keyNe : key ≠ wanted := fun same => keyNe (beq_of_eq (atHead.trans same.symm))
          simp [atHead, keyNe]
        · simp [atHead]

theorem mem_map_fst_insert {key wanted : String} {value : α} {entries : List (String × α)} :
    wanted ∈ (insert key value entries).map (·.1) ↔
      wanted = key ∨ wanted ∈ entries.map (·.1) := by
  rw [← get?_isSome_iff, ← get?_isSome_iff, get?_insert]
  by_cases keyEq : key = wanted
  · simp [keyEq]
  · simp [keyEq, Ne.symm keyEq]

/-- Inserting an entry keeps the keys ascending. -/
theorem Ascending.insert {entries : List (String × α)} (ascending : Ascending entries)
    (key : String) (value : α) : Ascending (insert key value entries) := by
  induction entries with
  | nil => exact List.pairwise_singleton _ _
  | cons entry rest ih =>
      rcases entry with ⟨k, old⟩
      have parts := List.pairwise_cons.mp ascending
      rw [Keyed.insert]
      split
      · rename_i less
        refine List.pairwise_cons.mpr ⟨?_, ascending⟩
        intro other member
        rcases List.mem_cons.mp member with rfl | inRest
        · exact less
        · exact less.trans (parts.1 other inRest)
      · split
        · rename_i keyEq
          rw [← eq_of_beq keyEq]
          exact List.pairwise_cons.mpr parts
        · rename_i notLess keyNe
          have less : k < key :=
            lt_of_le_of_ne (not_lt.mp notLess) fun keyEq => keyNe (beq_of_eq keyEq)
          refine List.pairwise_cons.mpr ⟨?_, ih parts.2⟩
          intro other member
          rcases mem_map_fst_insert.mp (List.mem_map_of_mem member) with otherEq | inRest
          · rw [otherEq]
            exact less
          · obtain ⟨found, foundMem, foundEq⟩ := List.mem_map.mp inRest
            rw [← foundEq]
            exact parts.1 found foundMem

/-! ## The canonical form -/

theorem Ascending.foldl_insert {start : List (String × α)} (ascending : Ascending start)
    (entries : List (String × α)) :
    Ascending (entries.foldl (fun acc entry => Keyed.insert entry.1 entry.2 acc) start) := by
  induction entries generalizing start with
  | nil => exact ascending
  | cons entry rest ih => exact ih (ascending.insert entry.1 entry.2)

/-- After inserting entries in order, a key has its last value among them, if there is one. -/
theorem get?_foldl_insert (key : String) (entries start : List (String × α)) :
    get? key (entries.foldl (fun acc entry => insert entry.1 entry.2 acc) start) =
      (get? key entries.reverse).or (get? key start) := by
  induction entries using List.reverseRecOn with
  | nil => rfl
  | append_singleton rest entry ih =>
      rw [List.foldl_append, List.foldl_cons, List.foldl_nil, get?_insert, ih,
        List.reverse_append, List.reverse_singleton, List.singleton_append, get?_cons]
      split <;> rfl

/-- A sorted list has ascending keys. -/
theorem ascending_sorted (entries : List (String × α)) : Ascending (sorted entries) :=
  Ascending.foldl_insert List.Pairwise.nil entries

/-- Under each key, a sorted list has the last value of the list. -/
theorem get?_sorted (key : String) (entries : List (String × α)) :
    get? key (sorted entries) = get? key entries.reverse := by
  rw [sorted, get?_foldl_insert, get?_nil, Option.or_none]

/-- Sorting adds no entries. -/
theorem mem_of_mem_sorted {entry : String × α} {entries : List (String × α)}
    (member : entry ∈ sorted entries) : entry ∈ entries := by
  have found := (ascending_sorted entries).distinct.get?_eq_some_iff.mpr member
  rw [get?_sorted] at found
  exact List.mem_reverse.mp (mem_of_get?_eq_some found)

/-- With different keys, sorting does not change the values under them. -/
theorem Distinct.get?_sorted {entries : List (String × α)} (distinct : Distinct entries)
    (key : String) : get? key (sorted entries) = get? key entries := by
  rw [Keyed.get?_sorted]
  exact (distinct.get?_eq_of_perm (List.reverse_perm entries).symm key).symm

/-- The canonical form forgets the order of entries. -/
theorem Distinct.sorted_eq_of_perm {first second : List (String × α)} (distinct : Distinct first)
    (perm : first.Perm second) : sorted first = sorted second := by
  have distinct' : Distinct second := (perm.map _).nodup_iff.mp distinct
  refine (ascending_sorted first).ext (ascending_sorted second) ?_
  intro key
  rw [distinct.get?_sorted, distinct'.get?_sorted, distinct.get?_eq_of_perm perm]

/-- A list that ascends already is its own canonical form. -/
theorem Ascending.sorted_eq {entries : List (String × α)} (ascending : Ascending entries) :
    sorted entries = entries :=
  (ascending_sorted entries).ext ascending ascending.distinct.get?_sorted

end RestPlugin.Keyed
