import Mathlib.Algebra.BigOperators.Fin
import Mathlib.Data.List.Chain
import RestPlugin.Pipeline.Reach

/-!
# Exactness of the search

A search has seen only nodes on paths from its start, and the edges of a node that it has seen lead
to nodes that it has seen or will visit.  When no node is left to visit, the seen ones are therefore
all that can be reached.  As the edges of a node are followed only once, a search ends after at most
as many visits as the graph has edges, and two.
-/

namespace RestPlugin.Pipeline

open Relation

variable {size : Nat} {edges : Edges size} {first target node : Fin size}

/-- An edge leads from a node to another one. -/
def Edge (edges : Edges size) (node next : Fin size) : Prop := next ∈ edges.get node

namespace Search

variable {search next : Search size}

/-! ## What one visit does -/

/-- A search has seen a node, or will visit it. -/
def Knows (search : Search size) (node : Fin size) : Prop :=
  search.seen.get node = true ∨ node ∈ search.stack

/-- What holds at every moment of a search. -/
structure Sound (edges : Edges size) (first target : Fin size) (search : Search size) : Prop where
  reached : ∀ node ∈ search.stack, ReflTransGen (Edge edges) first node
  missed : search.seen.get target = false
  closed : ∀ node, search.seen.get node = true → ∀ next, Edge edges node next → search.Knows next
  begun : search.Knows first

@[simp]
theorem get_seen_start (first node : Fin size) : (start first).seen.get node = false :=
  Vector.getElem_replicate node.isLt

theorem sound_start (edges : Edges size) (first target : Fin size) :
    (start first).Sound edges first target where
  reached node member := by
    rw [List.mem_singleton.mp member]
  missed := get_seen_start first target
  closed node seen := by
    rw [get_seen_start] at seen
    cases seen
  begun := .inr (List.mem_singleton_self first)

theorem get_set_of_ne (seen : Vector Bool size) {node other : Fin size} (apart : node ≠ other) :
    (seen.set node true node.isLt).get other = seen.get other :=
  Vector.getElem_set_ne _ _ (Fin.val_ne_of_ne apart)

/-- After marking a node, it and the nodes that were marked before are. -/
theorem get_set_eq_true_iff (seen : Vector Bool size) (node other : Fin size) :
    (seen.set node true node.isLt).get other = true ↔ node = other ∨ seen.get other = true := by
  by_cases same : node = other
  · subst same
    exact iff_of_true (Vector.getElem_set_self _) (.inl rfl)
  · rw [get_set_of_ne seen same, or_iff_right same]

/-- What a search knows it knows after another visit. -/
theorem Knows.visit (known : search.Knows node) (visited : search.visit edges target = .inr next) :
    next.Knows node := by
  obtain ⟨top, rest, stackEq, -, ⟨seen, rfl⟩ | ⟨-, rfl⟩⟩ := of_visit_eq_inr visited
  · rcases known with known | waiting
    · exact .inl known
    · rw [stackEq, List.mem_cons] at waiting
      rcases waiting with rfl | waiting
      · exact .inl seen
      · exact .inr waiting
  · rcases known with known | waiting
    · exact .inl ((get_set_eq_true_iff _ _ _).mpr (.inr known))
    · rw [stackEq, List.mem_cons] at waiting
      rcases waiting with rfl | waiting
      · exact .inl ((get_set_eq_true_iff _ _ _).mpr (.inl rfl))
      · exact .inr (List.mem_append_right _ waiting)

/-- Everything that holds of a search holds after the next visit. -/
theorem Sound.visit (sound : search.Sound edges first target)
    (visited : search.visit edges target = .inr next) : next.Sound edges first target := by
  have keeps {node : Fin size} (known : search.Knows node) : next.Knows node := known.visit visited
  obtain ⟨top, rest, stackEq, other, ⟨-, rfl⟩ | ⟨-, rfl⟩⟩ := of_visit_eq_inr visited
  · constructor
    · intro node waiting
      exact sound.reached node (stackEq ▸ List.mem_cons_of_mem top waiting)
    · exact sound.missed
    · intro node seen next edge
      exact keeps (sound.closed node seen next edge)
    · exact keeps sound.begun
  · have topReached : ReflTransGen (Edge edges) first top :=
      sound.reached top (stackEq ▸ List.mem_cons_self)
    constructor
    · intro node waiting
      rw [List.mem_append, List.mem_reverse] at waiting
      rcases waiting with edge | waiting
      · exact topReached.tail edge
      · exact sound.reached node (stackEq ▸ List.mem_cons_of_mem top waiting)
    · rw [← Bool.not_eq_true, get_set_eq_true_iff, sound.missed]
      simp [other]
    · intro node seen next edge
      rcases (get_set_eq_true_iff _ _ _).mp seen with rfl | seen
      · exact .inr (List.mem_append_left _ (List.mem_reverse.mpr edge))
      · exact keeps (sound.closed node seen next edge)
    · exact keeps sound.begun

/-! ## How a search ends -/

/-- When no node is left to visit, every node that can be reached has been seen. -/
theorem Sound.seen_of_reached (sound : search.Sound edges first target) (done : search.stack = [])
    (path : ReflTransGen (Edge edges) first node) : search.seen.get node = true := by
  have seen_of_knows {node : Fin size} (known : search.Knows node) :
      search.seen.get node = true := by
    rcases known with seen | waiting
    · exact seen
    · rw [done] at waiting
      cases waiting
  induction path with
  | refl => exact seen_of_knows sound.begun
  | tail _ edge ih => exact seen_of_knows (sound.closed _ ih _ edge)

/-- The answer with which a search ends is right. -/
theorem Sound.answer_iff (sound : search.Sound edges first target) {found : Bool}
    (ended : search.visit edges target = .inl found) :
    found = true ↔ ReflTransGen (Edge edges) first target := by
  unfold Search.visit at ended
  split at ended
  · rename_i done
    cases ended
    simp only [Bool.false_eq_true, false_iff]
    intro path
    have seen := sound.seen_of_reached done path
    rw [sound.missed] at seen
    cases seen
  · rename_i top rest stackEq
    split at ended
    · rename_i isTarget
      cases ended
      simp only [true_iff]
      exact sound.reached target (stackEq ▸ isTarget ▸ List.mem_cons_self)
    · split at ended
      · cases ended
      · cases ended

/-- A search finds its target exactly if it can be reached. -/
theorem Sound.run_iff (sound : search.Sound edges first target) :
    search.run edges target = true ↔ ReflTransGen (Edge edges) first target := by
  fun_induction run edges target search with
  | case1 search found ended => exact sound.answer_iff ended
  | case2 search next visited ih => exact ih (sound.visit visited)

/-! ## How long a search takes -/

/-- The visits that a search can still make: one for every node that waits for it, and one for every
edge that was not followed. -/
def remaining (edges : Edges size) (search : Search size) : Nat :=
  search.stack.length +
    ∑ node : Fin size, if search.seen.get node then 0 else (edges.get node).length

/-- Every visit after which a search goes on is one of those it could still make. -/
theorem remaining_visit (visited : search.visit edges target = .inr next) :
    next.remaining edges + 1 = search.remaining edges := by
  obtain ⟨top, rest, stackEq, -, ⟨-, rfl⟩ | ⟨unknown, rfl⟩⟩ := of_visit_eq_inr visited
  · rw [remaining, remaining, stackEq]
    exact Nat.add_right_comm _ _ _
  · have others : ∑ node ∈ Finset.univ.erase top,
          (if (search.seen.set top true top.isLt).get node then 0 else (edges.get node).length) =
        ∑ node ∈ Finset.univ.erase top,
          if search.seen.get node then 0 else (edges.get node).length := by
      apply Finset.sum_congr rfl
      intro node member
      rw [get_set_of_ne _ (Finset.ne_of_mem_erase member).symm]
    have seen : (search.seen.set top true top.isLt).get top = true :=
      (get_set_eq_true_iff _ _ _).mpr (.inl rfl)
    rw [remaining, remaining, stackEq, ← Finset.add_sum_erase _ _ (Finset.mem_univ top),
      ← Finset.add_sum_erase _ _ (Finset.mem_univ top), others]
    simp only [seen, unknown, if_true, Bool.false_eq_true, if_false, List.length_append,
      List.length_reverse, List.length_cons]
    omega

/-- A search ends with an answer after a number of visits, that of the answer included. -/
inductive Ends (edges : Edges size) (target : Fin size) : Search size → Nat → Bool → Prop where
  | answer {search : Search size} {found : Bool} (ended : search.visit edges target = .inl found) :
      Ends edges target search 1 found
  | goOn {search next : Search size} {visits : Nat} {found : Bool}
      (visited : search.visit edges target = .inr next)
      (ends : Ends edges target next visits found) :
      Ends edges target search (visits + 1) found

/-- A search ends with its answer, and makes one visit more than it could go on with at most. -/
theorem exists_ends (edges : Edges size) (target : Fin size) (search : Search size) :
    ∃ visits ≤ search.remaining edges + 1,
      Ends edges target search visits (search.run edges target) := by
  fun_induction run edges target search with
  | case1 search found ended =>
      exact ⟨1, Nat.le_add_left _ _, .answer ended⟩
  | case2 search next visited ih =>
      rcases ih with ⟨visits, bounded, ends⟩
      rw [remaining_visit visited] at bounded
      exact ⟨visits + 1, Nat.succ_le_succ bounded, .goOn visited ends⟩

theorem remaining_start (edges : Edges size) (node : Fin size) :
    (start node).remaining edges = (∑ node : Fin size, (edges.get node).length) + 1 := by
  simp only [remaining, get_seen_start, Bool.false_eq_true, if_false]
  exact Nat.add_comm _ _

end Search

/-- The search finds a node exactly if a path leads there. -/
theorem reaches_iff (edges : Edges size) (first target : Fin size) :
    reaches edges first target = true ↔ ReflTransGen (Edge edges) first target :=
  (Search.sound_start edges first target).run_iff

/-- On every graph the search ends, after at most as many visits as there are edges, and two.  It
finds a node exactly if a path of no, one or several edges leads there. -/
theorem reaches_ends_and_iff_path (edges : Edges size) (first target : Fin size) :
    (∃ visits ≤ (∑ node : Fin size, (edges.get node).length) + 2,
      Search.Ends edges target (Search.start first) visits (reaches edges first target)) ∧
    (reaches edges first target = true ↔
      ∃ path : List (Fin size), (first :: path).IsChain (fun node next => next ∈ edges.get node) ∧
        (first :: path).getLast? = some target) := by
  constructor
  · have ends := Search.exists_ends edges target (Search.start first)
    rw [Search.remaining_start] at ends
    exact ends
  · rw [reaches_iff]
    constructor
    · intro leads
      rcases List.exists_isChain_cons_of_relationReflTransGen leads with ⟨path, chain, last⟩
      exact ⟨path, chain, last ▸ List.getLast?_eq_getLast_of_ne_nil _⟩
    · rintro ⟨path, chain, last⟩
      apply List.relationReflTransGen_of_exists_isChain_cons path chain
      exact (List.getLast_eq_iff_getLast?_eq_some _).mpr last

end RestPlugin.Pipeline
