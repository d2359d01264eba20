/-!
# Reachability

Whether a node of a finite graph can be reached from another one.  The search goes in depth: it
visits the node that was added last and adds the nodes that its edges lead to, unless it has done so
before.  A node may be added several times, but its edges are followed only once, so that the search
ends on every graph.
-/

namespace RestPlugin.Pipeline

/-- The edges of a graph whose nodes are numbered: for every node, the nodes its edges lead to. -/
abbrev Edges (size : Nat) := Vector (List (Fin size)) size

/-- A search in progress: the nodes whose edges were followed, and the nodes that are still to be
visited, the next one first. -/
structure Search (size : Nat) where
  seen : Vector Bool size
  stack : List (Fin size)

namespace Search

variable {size : Nat}

/-- The beginning of a search. -/
def start (node : Fin size) : Search size := ⟨.replicate size false, [node]⟩

/-- Visits the next node.  The search ends at its target, or when no node is left to visit. -/
def visit (edges : Edges size) (target : Fin size) (search : Search size) : Bool ⊕ Search size :=
  match search.stack with
  | [] => .inl false
  | node :: rest =>
      if node = target then .inl true
      else if search.seen.get node then .inr ⟨search.seen, rest⟩
      else .inr ⟨search.seen.set node true node.isLt, (edges.get node).reverse ++ rest⟩

/-- The number of nodes whose edges were not followed yet. -/
def unseen (search : Search size) : Nat := search.seen.count false

variable {edges : Edges size} {target : Fin size} {search next : Search size}

/-- A search that goes on has left a known node, or followed the edges of a new one. -/
theorem of_visit_eq_inr (visited : search.visit edges target = .inr next) :
    ∃ node rest, search.stack = node :: rest ∧ node ≠ target ∧
      (search.seen.get node = true ∧ next = ⟨search.seen, rest⟩ ∨
        search.seen.get node = false ∧
          next = ⟨search.seen.set node true node.isLt, (edges.get node).reverse ++ rest⟩) := by
  unfold visit at visited
  split at visited
  · cases visited
  · rename_i node rest stackEq
    split at visited
    · cases visited
    · rename_i other
      refine ⟨node, rest, stackEq, other, ?_⟩
      split at visited
      · rename_i known
        exact .inl ⟨known, (Sum.inr.inj visited).symm⟩
      · rename_i unknown
        exact .inr ⟨Bool.not_eq_true _ ▸ unknown, (Sum.inr.inj visited).symm⟩

theorem unseen_set {node : Fin size} (unknown : search.seen.get node = false)
    (stack : List (Fin size)) :
    unseen ⟨search.seen.set node true node.isLt, stack⟩ < search.unseen := by
  change search.seen[node.val] = false at unknown
  have member : false ∈ search.seen := unknown ▸ Vector.getElem_mem node.isLt
  have positive : 0 < search.seen.count false := Vector.count_pos_iff.mpr member
  rw [unseen, unseen, Vector.count_set]
  simpa [unknown] using Nat.sub_lt positive Nat.one_pos

/-- With every visit there are fewer nodes to follow, or as many and fewer to visit. -/
theorem visit_decreases (visited : search.visit edges target = .inr next) :
    Prod.Lex (· < ·) (· < ·) (next.unseen, next.stack.length)
      (search.unseen, search.stack.length) := by
  obtain ⟨node, rest, stackEq, -, ⟨-, rfl⟩ | ⟨unknown, rfl⟩⟩ := of_visit_eq_inr visited
  · apply Prod.Lex.right
    rw [stackEq]
    exact Nat.lt_succ_self _
  · apply Prod.Lex.left
    exact unseen_set unknown _

/-- Visits nodes until the search ends: whether the target was found. -/
def run (edges : Edges size) (target : Fin size) (search : Search size) : Bool :=
  match _ : search.visit edges target with
  | .inl found => found
  | .inr next => run edges target next
termination_by (search.unseen, search.stack.length)
decreasing_by exact visit_decreases ‹_›

end Search

/-- Whether a node can be reached from another one. -/
def reaches {size : Nat} (edges : Edges size) (start target : Fin size) : Bool :=
  (Search.start start).run edges target

end RestPlugin.Pipeline
