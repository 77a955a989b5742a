import Schemata.Sharing

/-!
# Graphs of labelled nodes

The plainest graph that subtrees can be shared in: nodes are numbered, each has a label and a list of
children, and a redirection replaces the first child that is the destination.
-/

namespace Schemata.Sharing

/-- A node with its label and its children. -/
structure LabelledNode where
  /-- The label. -/
  label : String
  /-- The numbers of the children, in order. -/
  children : List Nat
deriving DecidableEq, Repr

/-- Numbered nodes. -/
structure LabelledGraph where
  /-- The nodes by number. -/
  nodes : Array LabelledNode
deriving DecidableEq, Repr

namespace LabelledGraph

/-- The label of a node. -/
def label (g : LabelledGraph) (n : Nat) : String :=
  (g.nodes[n]?.map LabelledNode.label).getD ""

/-- The children of a node. -/
def children (g : LabelledGraph) (n : Nat) : List Nat :=
  (g.nodes[n]?.map LabelledNode.children).getD []

/-- Replace the first occurrence of a number in a list. -/
def replaceFirst (old new : Nat) : List Nat → List Nat
  | [] => []
  | n :: ns => if n = old then new :: ns else n :: replaceFirst old new ns

/-- Let a node hold the source in place of the first child that is the destination. -/
def redirect (g : LabelledGraph) (r : Redirection Nat) : LabelledGraph :=
  ⟨g.nodes.modify r.holder fun node =>
    { node with children := replaceFirst r.destination r.source node.children }⟩

/-- Labelled graphs as graphs to share subtrees in. -/
def linked : Linked LabelledGraph Nat where
  fingerprint := label
  children := children
  bound g := g.nodes.size
  redirect := redirect

end LabelledGraph

end Schemata.Sharing
