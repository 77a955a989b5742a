import Mathlib.Data.List.Forall2
import Schemata.Proofs.Sharing.Weights

/-!
# Relabelling

A plan looks at nodes through their fingerprints only, so it does not matter what the nodes are: if the labels of a tree
are replaced, the plan is made of the replaced labels (`plan_map`).

Two graphs may name their nodes differently. Where their nodes correspond, with the same fingerprints and with children
that correspond in turn, both are the relabelled graph of corresponding pairs. So the plans below corresponding nodes
are made of corresponding nodes (`exists_pairs_of_plan`).
-/

namespace Schemata.Sharing

variable {ν ν' : Type} {f : ν → ν'} {fingerprint : ν' → String}

/-! ### Trees -/

namespace Tree

/-- The tree of a graph with other names is the tree with other labels. -/
theorem map_unfold {children : ν → List ν} {children' : ν' → List ν'}
    (hchildren : ∀ x, (children x).map f = children' (f x)) (n : Nat) :
    ∀ x, (unfold children n x).map f = unfold children' n (f x) := by
  induction n with
  | zero => exact fun x => map_node f x []
  | succ n ih =>
    intro x
    rw [unfold, unfold, map_node, ← hchildren x, List.map_map, List.map_map]
    exact congrArg (Tree.node (f x)) (List.map_congr_left fun y _ => ih y)

theorem map_snd_label (ts : List (Tree (ν × Digest))) :
    ((ts.map (map (Prod.map f id))).map fun t => t.label.2) = ts.map fun t => t.label.2 := by
  rw [List.map_map]
  refine List.map_congr_left fun t _ => ?_
  rw [Function.comp_apply, label_map]
  rfl

mutual

/-- The digests of a relabelled tree are those of the tree. -/
theorem withDigests_map (t : Tree ν) (h : Hasher) :
    (t.map f).withDigests fingerprint h =
      ((t.withDigests (fingerprint ∘ f) h).1.map (Prod.map f id), (t.withDigests (fingerprint ∘ f) h).2) := by
  cases t with
  | node n ts =>
    have hbelow := withDigestsAll_map ts h
    rw [map_node, withDigests, withDigests]
    simp only [Hashing.run_bind, Hashing.run_pure, hbelow, map_snd_label, map_node, Function.comp_apply]
    rfl

theorem withDigestsAll_map (ts : List (Tree ν)) (h : Hasher) :
    withDigestsAll fingerprint (ts.map (map f)) h =
      ((withDigestsAll (fingerprint ∘ f) ts h).1.map (map (Prod.map f id)),
        (withDigestsAll (fingerprint ∘ f) ts h).2) := by
  cases ts with
  | nil => rfl
  | cons t ts =>
    rw [List.map_cons, withDigestsAll, withDigestsAll]
    simp only [Hashing.run_bind, Hashing.run_pure, withDigests_map t h, withDigestsAll_map ts, List.map_cons]

end

end Tree

/-! ### Occurrences -/

/-- An occurrence with its node replaced. -/
def Cell.map (f : ν → ν') (cell : Cell ν) : Cell ν' :=
  { cell with node := f cell.node }

/-- A redirection with its nodes replaced. -/
def Redirection.map (f : ν → ν') (r : Redirection ν) : Redirection ν' :=
  ⟨f r.holder, f r.source, f r.destination⟩

mutual

theorem cells_map (parent : Option Nat) (index : Nat) (t : Tree (ν × Digest)) :
    cells parent index (t.map (Prod.map f id)) = (cells parent index t).map (Cell.map f) := by
  cases t with
  | node label ts =>
    obtain ⟨n, d⟩ := label
    rw [Tree.map_node]
    exact congrArg (List.cons _) (cellsAll_map index (index + 1) ts)

theorem cellsAll_map (parent index : Nat) (ts : List (Tree (ν × Digest))) :
    cellsAll parent index (ts.map (Tree.map (Prod.map f id))) = (cellsAll parent index ts).map (Cell.map f) := by
  cases ts with
  | nil => rfl
  | cons t ts =>
    rw [List.map_cons, cellsAll, cellsAll, cells_map, List.map_append, List.length_map, cellsAll_map]

end

theorem occurrences_map (t : Tree ν) :
    occurrences fingerprint (t.map f) = (occurrences (fingerprint ∘ f) t).map (Cell.map f) := by
  have hrun : ∀ {ν : Type} {fingerprint : ν → String} {t : Tree ν},
      occurrences fingerprint t = (cells none 0 (t.withDigests fingerprint {}).1).toArray := rfl
  rw [hrun, hrun, Tree.withDigests_map, cells_map, List.map_toArray]

/-- What a sweep compares does not depend on the nodes. -/
theorem candidates_map (all : Array (Cell ν)) (level : Nat) :
    candidates (all.map (Cell.map f)) level = candidates all level := by
  have hparents : (all.map (Cell.map f)).map Cell.parent = all.map Cell.parent := by
    rw [Array.map_map]
    rfl
  simp only [candidates, hparents, Array.size_map, Array.getElem?_map]
  congr 1
  refine List.filterMap_congr fun i _ => ?_
  cases all[i]? with
  | none => rfl
  | some cell => rcases (ancestors (all.map Cell.parent) level)[i]? with _ | _ | ancestor <;> rfl

/-! ### Sweeps -/

theorem held_map (all : Array (Cell ν)) (nodes : Array ν) (index : Nat) :
    held (all.map (Cell.map f)) (nodes.map f) index = (held all nodes index).map (Prod.map f f) := by
  rw [held, held, Array.getElem?_map]
  cases all[index]? with
  | none => rfl
  | some cell =>
    have hparent : (cell.map f).parent = cell.parent := rfl
    simp only [Option.map_some, Option.bind_eq_bind, Option.bind_some, hparent]
    cases cell.parent with
    | none => rfl
    | some parent =>
      simp only [Option.bind_some, Array.getElem?_map]
      cases nodes[index]? with
      | none => rfl
      | some node => cases nodes[parent]? <;> rfl

theorem sweep_map (all : Array (Cell ν)) (nodes : Array ν) (cs : List Candidate) :
    (sweep (all.map (Cell.map f)) (nodes.map f) cs).redirections =
      (sweep all nodes cs).redirections.map (Redirection.map f) := by
  fun_induction sweep all nodes cs with
  | case1 nodes previous current rest hgroup source destination holder hheld hsource swept ih =>
    rw [sweep, if_pos hgroup, held_map, hheld, Array.getElem?_map, hsource]
    simp only [Option.map_some, Prod.map, ← Array.map_setIfInBounds, List.map_cons, ih]
    rfl
  | case2 nodes previous current rest hgroup hnone ih =>
    rw [sweep, if_pos hgroup, held_map, Array.getElem?_map]
    rcases hsource : nodes[previous.index]? with _ | source
    · exact ih
    rcases hheld : held all nodes current.index with _ | ⟨destination, holder⟩
    · exact ih
    · exact absurd hheld (hnone source destination holder hsource)
  | case3 nodes previous current rest hgroup ih =>
    rw [sweep, if_neg hgroup]
    exact ih
  | case4 nodes cs hcs =>
    rw [sweep.eq_2 _ _ _ hcs]
    rfl

/-- **A plan is made of the labels of the tree**, which are told apart by their fingerprints only. -/
theorem plan_map (level : Nat) (t : Tree ν) :
    plan fingerprint level (t.map f) = (plan (fingerprint ∘ f) level t).map (Redirection.map f) := by
  have hnodes : ((occurrences (fingerprint ∘ f) t).map (Cell.map f)).map Cell.node =
      ((occurrences (fingerprint ∘ f) t).map Cell.node).map f := by
    rw [Array.map_map, Array.map_map]
    rfl
  simp only [plan, sweepTree, occurrences_map, candidates_map, hnodes, sweep_map]

/-! ### Correspondences -/

section Correspondence

variable {R : ν → ν' → Prop}

/-- Lists of corresponding nodes are lists of pairs. -/
theorem exists_pairs_of_forall₂ {xs : List ν} {ys : List ν'} (hxs : List.Forall₂ R xs ys) :
    ∃ pairs : List { x : ν × ν' // R x.1 x.2 }, pairs.map (·.1.1) = xs ∧ pairs.map (·.1.2) = ys := by
  induction hxs with
  | nil => exact ⟨[], rfl, rfl⟩
  | @cons x y _ _ hxy _ ih =>
    obtain ⟨pairs, rfl, rfl⟩ := ih
    exact ⟨⟨(x, y), hxy⟩ :: pairs, rfl, rfl⟩

/-- **The plans below corresponding nodes are made of corresponding nodes**, if these have the same fingerprints and
children that correspond in turn. -/
theorem exists_pairs_of_plan {print : ν → String} {print' : ν' → String} {children : ν → List ν}
    {children' : ν' → List ν'} (hprint : ∀ {x x'}, R x x' → print x = print' x')
    (hchildren : ∀ {x x'}, R x x' → List.Forall₂ R (children x) (children' x')) {root : ν} {root' : ν'}
    (hroot : R root root') (n level : Nat) :
    ∃ pairs : List (Redirection { x : ν × ν' // R x.1 x.2 }),
      plan print level (Tree.unfold children n root) = pairs.map (Redirection.map (·.1.1)) ∧
        plan print' level (Tree.unfold children' n root') = pairs.map (Redirection.map (·.1.2)) := by
  choose below hfirst hsecond using fun x : { x : ν × ν' // R x.1 x.2 } => exists_pairs_of_forall₂ (hchildren x.2)
  have hsame : print ∘ (·.1.1) = print' ∘ fun x : { x : ν × ν' // R x.1 x.2 } => x.1.2 := funext fun x => hprint x.2
  refine ⟨plan (print ∘ (·.1.1)) level (Tree.unfold below n ⟨(root, root'), hroot⟩), ?_, ?_⟩
  · rw [← plan_map, Tree.map_unfold hfirst]
  · rw [hsame, ← plan_map, Tree.map_unfold hsecond]

end Correspondence

end Schemata.Sharing
