import Mathlib.Data.List.Forall2
import Mathlib.Data.List.Nodup
import Mathlib.Data.Prod.Lex
import Mathlib.Data.String.Basic

/-!
# Lists that are related or sorted

Two lists are related member by member if each member of the one is related to the member of the
other in its place; what the relation keeps of the members, it keeps of the lists.

A list is sorted with a decision on two items.  If this decision compares keys in a linear order,
the result is ordered by key, and if the keys of the items differ, it does not depend on the
order in which the items came.
-/

namespace RestPlugin

/-! ## Lists related member by member -/

section Paired

variable {α β γ : Type}

section Members

variable {related : α → β → Prop} {first : List α} {second : List β}

/-- The member in the place of a member is related to it. -/
theorem exists_getElem?_of_forall₂ (paired : List.Forall₂ related first second)
    {index : Nat} {a : α} (aEq : first[index]? = some a) :
    ∃ b, second[index]? = some b ∧ related a b := by
  obtain ⟨sameLength, each⟩ := List.forall₂_iff_get.mp paired
  obtain ⟨bound, rfl⟩ := List.getElem?_eq_some_iff.mp aEq
  have bound' : index < second.length := sameLength ▸ bound
  exact ⟨second[index], List.getElem?_eq_getElem bound', each index bound bound'⟩

/-- Each member of the first list has a related member in the second. -/
theorem exists_right_of_forall₂ (paired : List.Forall₂ related first second) :
    ∀ a ∈ first, ∃ b ∈ second, related a b := by
  intro a member
  obtain ⟨index, aEq⟩ := List.mem_iff_getElem?.mp member
  obtain ⟨b, bEq, found⟩ := exists_getElem?_of_forall₂ paired aEq
  exact ⟨b, List.mem_of_getElem? bEq, found⟩

/-- Each member of the second list has a related member in the first. -/
theorem exists_left_of_forall₂ (paired : List.Forall₂ related first second) :
    ∀ b ∈ second, ∃ a ∈ first, related a b := by
  have turned : List.Forall₂ (flip related) second first := paired.flip
  exact exists_right_of_forall₂ turned

/-- A relation between members may use that they are members. -/
theorem forall₂_imp_of_mem {implied : α → β → Prop}
    (each : ∀ x ∈ first, ∀ y ∈ second, related x y → implied x y)
    (paired : List.Forall₂ related first second) : List.Forall₂ implied first second := by
  rw [List.forall₂_iff_zip] at paired ⊢
  refine ⟨paired.1, ?_⟩
  intro x y inZip
  obtain ⟨xMem, yMem⟩ := List.of_mem_zip inZip
  exact each x xMem y yMem (paired.2 inZip)

end Members

/-- Lists have the same image if related members have. -/
theorem map_eq_map_of_forall₂ {related : α → β → Prop} {f : α → γ} {g : β → γ} {first : List α}
    {second : List β} (each : ∀ x y, related x y → f x = g y)
    (paired : List.Forall₂ related first second) : first.map f = second.map g := by
  rw [← List.forall₂_eq_eq_eq, List.forall₂_map_left_iff, List.forall₂_map_right_iff]
  exact paired.imp each

/-- Members with the same images stand in every relation that the images determine. -/
theorem forall₂_of_map_eq {f : α → β} {related : α → α → Prop} {first second : List α}
    (each : ∀ x ∈ first, ∀ y ∈ second, f x = f y → related x y)
    (same : first.map f = second.map f) : List.Forall₂ related first second := by
  rw [← List.forall₂_eq_eq_eq, List.forall₂_map_left_iff, List.forall₂_map_right_iff] at same
  exact forall₂_imp_of_mem each same

/-- What one image of members determines about each of them, it determines about the list. -/
theorem map_eq_of_map_eq {f : α → β} {g : α → γ} {first second : List α}
    (each : ∀ x ∈ first, ∀ y ∈ second, f x = f y → g x = g y)
    (same : first.map f = second.map f) : first.map g = second.map g :=
  map_eq_map_of_forall₂ (fun _ _ => id) (forall₂_of_map_eq each same)

/-- An image that tells the members apart tells the lists apart. -/
theorem eq_of_map_eq {f : α → β} {first second : List α}
    (each : ∀ x ∈ first, ∀ y ∈ second, f x = f y → x = y) (same : first.map f = second.map f) :
    first = second := by
  rw [← List.map_id first, ← List.map_id second]
  exact map_eq_of_map_eq each same

end Paired

/-! ## Sorting by a key -/

section Sorting

variable {α κ : Type} [LinearOrder κ]

/-- Whether a decision on two items compares their keys. -/
def Compares (le : α → α → Bool) (key : α → κ) : Prop :=
  ∀ first second, le first second = true ↔ key first ≤ key second

namespace Compares

variable {le : α → α → Bool} {key : α → κ} (compares : Compares le key)
include compares

theorem trans (first second third : α) (before : le first second = true)
    (after : le second third = true) : le first third = true := by
  rw [compares] at before after ⊢
  exact before.trans after

theorem total (first second : α) : (le first second || le second first) = true := by
  rw [Bool.or_eq_true, compares, compares]
  exact le_total _ _

/-- A sorted list is ordered by key. -/
theorem pairwise_mergeSort (items : List α) :
    (items.mergeSort le).Pairwise fun first second => key first ≤ key second :=
  (List.pairwise_mergeSort compares.trans compares.total items).imp fun {first second} =>
    (compares first second).mp

/-- Items with different keys are sorted strictly. -/
theorem pairwise_lt_mergeSort {items : List α} (distinct : (items.map key).Nodup) :
    (items.mergeSort le).Pairwise fun first second => key first < key second := by
  have apart : ((items.mergeSort le).map key).Nodup :=
    ((List.mergeSort_perm items le).map key).nodup_iff.mpr distinct
  refine ((compares.pairwise_mergeSort items).and (List.pairwise_map.mp apart)).imp ?_
  exact fun both => lt_of_le_of_ne both.1 both.2

/-- Items with different keys are sorted in one way only. -/
theorem mergeSort_eq_of_perm {first second : List α} (distinct : (first.map key).Nodup)
    (perm : first.Perm second) : first.mergeSort le = second.mergeSort le := by
  have distinct' : (second.map key).Nodup := (perm.map key).nodup_iff.mp distinct
  have sorted : (first.mergeSort le).Perm (second.mergeSort le) :=
    (List.mergeSort_perm first le).trans (perm.trans (List.mergeSort_perm second le).symm)
  refine List.Perm.eq_of_pairwise (fun item other _ _ before after => ?_)
    (compares.pairwise_lt_mergeSort distinct) (compares.pairwise_lt_mergeSort distinct') sorted
  exact absurd after before.asymm

/-- What is in order stays as it is. -/
theorem mergeSort_eq_self {items : List α}
    (sorted : items.Pairwise fun first second => key first ≤ key second) :
    items.mergeSort le = items :=
  List.mergeSort_of_pairwise (sorted.imp fun {first second} => (compares first second).mpr)

end Compares

end Sorting

end RestPlugin
