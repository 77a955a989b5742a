import Schemata.Digest

/-!
# Sharing equal subtrees

Nodes of a graph are unfolded into a tree, and every subtree gets the digest of its text: the fingerprint
of its root, then the texts of its children, each followed by a comma, between parentheses. Two subtrees
with equal digests whose ancestors `level` steps up are the same occurrence are *shared*: the parent of the
later one is asked to hold the earlier one instead.

The work is done in two parts that know nothing of each other:

* `plan` reads the tree and lists the redirections, each with the node that is to be asked, the node to
  hold and the node to let go;
* `Linked.share` carries the redirections out, one after the other.

The ancestor `level` steps up is found by jumps of `1, 2, 4, …` steps, one for every bit of `level`.
-/

namespace Schemata.Sharing

/-- A tree of labels. -/
inductive Tree (ν : Type) where
  /-- A label with the subtrees below it. -/
  | node (label : ν) (children : List (Tree ν))

namespace Tree

variable {ν : Type}

/-- The label at the root. -/
def label : Tree ν → ν
  | .node n _ => n

/-- The subtrees below the root. -/
def children : Tree ν → List (Tree ν)
  | .node _ ts => ts

/-- The tree of the nodes below a node, to a depth of `bound` steps. -/
def unfold (children : ν → List ν) : Nat → ν → Tree ν
  | 0, n => .node n []
  | bound + 1, n => .node n ((children n).map (unfold children bound))

mutual

/-- The text of a tree: the fingerprint of the root, then the texts of the subtrees, each followed by a
comma, between parentheses. -/
def text (fingerprint : ν → String) : Tree ν → String
  | .node n ts => fingerprint n ++ "(" ++ textAll fingerprint ts ++ ")"

/-- The texts of trees, each followed by a comma. -/
def textAll (fingerprint : ν → String) : List (Tree ν) → String
  | [] => ""
  | t :: ts => t.text fingerprint ++ "," ++ textAll fingerprint ts

end

/-- Extend a digest by the digests of the subtrees, each followed by the one of a comma. -/
def joinChildren (comma : Digest) (start : Digest) : List Digest → Hashing Digest
  | [] => pure start
  | d :: ds => do
    let joined ← Hasher.join (← Hasher.join start d) comma
    joinChildren comma joined ds

mutual

/-- Label every node with the digest of the text of its subtree as well. -/
def withDigests (fingerprint : ν → String) : Tree ν → Hashing (Tree (ν × Digest))
  | .node n ts => do
    let below ← withDigestsAll fingerprint ts
    let opened ← Hasher.join (← Hasher.digest (fingerprint n)) (← Hasher.digest "(")
    let joined ← joinChildren (← Hasher.digest ",") opened (below.map fun t => t.label.2)
    let digest ← Hasher.join joined (← Hasher.digest ")")
    return .node (n, digest) below

/-- Label the nodes of several trees. -/
def withDigestsAll (fingerprint : ν → String) : List (Tree ν) → Hashing (List (Tree (ν × Digest)))
  | [] => pure []
  | t :: ts => do
    let head ← t.withDigests fingerprint
    let tail ← withDigestsAll fingerprint ts
    return head :: tail

end

end Tree

/-- One occurrence of a node in the unfolded tree. -/
structure Cell (ν : Type) where
  /-- The node. -/
  node : ν
  /-- The position of the occurrence it is a child of. -/
  parent : Option Nat
  /-- The digest of the subtree. -/
  digest : Digest
deriving DecidableEq, Repr

section Cells

variable {ν : Type}

mutual

/-- The occurrences of a tree whose root is at position `index`, each before those below it. -/
def cells (parent : Option Nat) (index : Nat) : Tree (ν × Digest) → List (Cell ν)
  | .node (n, d) ts => ⟨n, parent, d⟩ :: cellsAll index (index + 1) ts

/-- The occurrences of the subtrees below position `parent`, the first at position `index`. -/
def cellsAll (parent index : Nat) : List (Tree (ν × Digest)) → List (Cell ν)
  | [] => []
  | t :: ts =>
    let head := cells (some parent) index t
    head ++ cellsAll parent (index + head.length) ts

end

end Cells

/-! ### Ancestors -/

/-- The bits of a number that are set, as exponents of two in ascending order. -/
def levelPowers (level : Nat) : List Nat :=
  (List.range (level.log2 + 1)).filter level.testBit

/-- For every position, where two jumps lead one after the other. -/
def thenJump (first second : Array (Option Nat)) : Array (Option Nat) :=
  first.map fun target => target.bind fun i => (second[i]?).join

/-- For every position, where `2 ^ k` steps to the parent lead. -/
def jump (parents : Array (Option Nat)) : Nat → Array (Option Nat)
  | 0 => parents
  | k + 1 =>
    let half := jump parents k
    thenJump half half

/-- For every position, the ancestor `level` steps up. -/
def ancestors (parents : Array (Option Nat)) (level : Nat) : Array (Option Nat) :=
  (levelPowers level).foldl (fun reached k => thenJump reached (jump parents k))
    (Array.ofFn fun i : Fin parents.size => some i.val)

/-! ### The plan -/

/-- What a sweep compares of an occurrence: the digest of its subtree and its ancestor. -/
structure Candidate where
  /-- The digest of the subtree. -/
  digest : Digest
  /-- The position of the ancestor. -/
  ancestor : Nat
  /-- The position of the occurrence. -/
  index : Nat
deriving DecidableEq, Repr

namespace Candidate

/-- By digest, then by ancestor, then by position. -/
protected def compare (a b : Candidate) : Ordering :=
  (compare a.digest b.digest).then ((compare a.ancestor b.ancestor).then (compare a.index b.index))

/-- Whether two occurrences are to be shared. -/
def sameGroup (a b : Candidate) : Bool :=
  a.digest == b.digest && a.ancestor == b.ancestor

end Candidate

/-- The occurrences that have an ancestor `level` steps up, in the order of the sweep. -/
def candidates {ν : Type} (cells : Array (Cell ν)) (level : Nat) : List Candidate :=
  let above := ancestors (cells.map Cell.parent) level
  let all := (List.range cells.size).filterMap fun i =>
    match cells[i]?, above[i]? with
    | some cell, some (some ancestor) => some ⟨cell.digest, ancestor, i⟩
    | _, _ => none
  all.mergeSort fun a b => (a.compare b).isLE

/-- A node is asked to hold `source` in place of `destination`. -/
structure Redirection (ν : Type) where
  /-- The node that is asked. -/
  holder : ν
  /-- The node to hold. -/
  source : ν
  /-- The node to let go. -/
  destination : ν
deriving DecidableEq, Repr

section Plan

variable {ν : Type}

/-- The node that an occurrence now stands for, together with the node its parent now stands for. -/
def held (cells : Array (Cell ν)) (nodes : Array ν) (index : Nat) : Option (ν × ν) := do
  let cell ← cells[index]?
  let parent ← cell.parent
  return (← nodes[index]?, ← nodes[parent]?)

/-- What a sweep comes to. -/
structure Swept (ν : Type) where
  /-- The redirections, in order. -/
  redirections : List (Redirection ν)
  /-- The node that every occurrence stands for at the end. -/
  nodes : Array ν

/-- Go through the candidates in order and redirect each one that belongs to the group of the candidate
before it. `nodes` tells which node every occurrence now stands for. -/
def sweep (cells : Array (Cell ν)) : Array ν → List Candidate → Swept ν
  | nodes, previous :: current :: rest =>
    if previous.sameGroup current then
      match nodes[previous.index]?, held cells nodes current.index with
      | some source, some (destination, holder) =>
        let swept := sweep cells (nodes.setIfInBounds current.index source) (current :: rest)
        { swept with redirections := ⟨holder, source, destination⟩ :: swept.redirections }
      | _, _ => sweep cells nodes (current :: rest)
    else
      sweep cells nodes (current :: rest)
  | nodes, _ => ⟨[], nodes⟩

/-- The occurrences of a tree with their digests. -/
def occurrences (fingerprint : ν → String) (tree : Tree ν) : Array (Cell ν) :=
  let (labelled, _) := (tree.withDigests fingerprint).run {}
  (cells none 0 labelled).toArray

/-- The sweep over a tree. At level zero every occurrence is its own ancestor, so nothing is shared. -/
def sweepTree (fingerprint : ν → String) (level : Nat) (tree : Tree ν) : Swept ν :=
  let all := occurrences fingerprint tree
  sweep all (all.map Cell.node) (candidates all level)

/-- The redirections that share equal subtrees below a common ancestor `level` steps up. -/
def plan (fingerprint : ν → String) (level : Nat) (tree : Tree ν) : List (Redirection ν) :=
  (sweepTree fingerprint level tree).redirections

end Plan

/-! ### Carrying the plan out -/

/-- How the nodes `ν` of a graph `σ` are read and redirected. -/
structure Linked (σ ν : Type) where
  /-- The text that tells a node from others, its children left aside. -/
  fingerprint : σ → ν → String
  /-- The children of a node, in order. -/
  children : σ → ν → List ν
  /-- The most steps that a path can take. -/
  bound : σ → Nat
  /-- Carry a redirection out. -/
  redirect : σ → Redirection ν → σ

namespace Linked

variable {σ ν : Type}

/-- The tree below a node. -/
def tree (L : Linked σ ν) (graph : σ) (root : ν) : Tree ν :=
  Tree.unfold (L.children graph) (L.bound graph) root

/-- The redirections to be made below a node. -/
def plan (L : Linked σ ν) (graph : σ) (root : ν) (level : Nat) : List (Redirection ν) :=
  Sharing.plan (L.fingerprint graph) level (L.tree graph root)

/-- Share the equal subtrees below a node that have a common ancestor `level` steps up. -/
def share (L : Linked σ ν) (graph : σ) (root : ν) (level : Nat) : σ :=
  (L.plan graph root level).foldl L.redirect graph

end Linked

end Schemata.Sharing
