/-!
# Orders in which predecessors come first

Nodes are put into an order by a depth-first search along their successors: a node is put in front of everything
that the search has finished once all of its successors are finished. If the links have no cycle, every node
comes after its predecessors; `firstLate?` finds the first violation otherwise.
-/

namespace Schemata.Order

variable {α : Type} [DecidableEq α]

/-- A search in progress. -/
structure Search (α : Type) where
  /-- The nodes that the search has come to. -/
  discovered : List α := []
  /-- The nodes that the search is done with, the last one first. -/
  finished : List α := []

/-- Search from a node. A node that is its own successor ends the search. -/
def visit (successors : α → List α) : Nat → Search α → α → Except α (Search α)
  | 0, s, _ => .ok s
  | bound + 1, s, n =>
    if n ∈ s.discovered then .ok s
    else if n ∈ successors n then .error n
    else do
      let s ← (successors n).foldlM (visit successors bound) { s with discovered := n :: s.discovered }
      return { s with finished := n :: s.finished }

/-- The nodes in the order of a search from each of them, the last finished first. -/
def search (successors : α → List α) (nodes : List α) : Except α (List α) :=
  (nodes.foldlM (visit successors nodes.length) {}).map Search.finished

/-- The first predecessor of a node in the list that does not come before it, if there is one. -/
def firstLate? (predecessors : α → List α) : (before : List α) → List α → Option α
  | _, [] => none
  | before, n :: rest =>
    match (predecessors n).find? fun p => p ∉ n :: before with
    | some p => some p
    | none => firstLate? predecessors (n :: before) rest

/-- The nodes in an order in which predecessors come first, or a node on a cycle. -/
def predecessorsFirst (successors predecessors : α → List α) (nodes : List α) : Except α (List α) := do
  let order ← search successors nodes
  match firstLate? predecessors [] order with
  | some p => .error p
  | none => .ok order

end Schemata.Order
