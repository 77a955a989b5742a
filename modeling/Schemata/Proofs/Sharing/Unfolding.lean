import Mathlib.Data.Finset.Card
import Schemata.Proofs.Sharing.Seats

/-!
# Unfolding acyclic graphs

A graph is unfolded to a depth that no path of an acyclic graph exceeds, so nothing is cut off: the tree of
fingerprints below a node is the fingerprint of the node with the trees below its children (`Linked.pattern_eq`). What
is needed for that is a *grading*, a rank for every node that links lead down from (`Graded`), and a finite acyclic graph
has one (`exists_graded`).

Redirections rest on digests only. `nonempty_ground` says on which: for every redirection of a plan, at any level, there
is an occurrence with the digest of the source and of the destination, below an occurrence with the digest of the node
that is asked. This is enough to see what a run of redirections keeps (`Linked.Alike`), provided that equal digests
stand for equal trees of fingerprints.
-/

namespace Schemata.Sharing

variable {ν σ : Type}

/-! ### Gradings -/

/-- No node leads back to itself. -/
def Acyclic (children : ν → List ν) : Prop :=
  ∀ x, ¬ Relation.TransGen (fun x y => y ∈ children x) x x

/-- The nodes of `S` have ranks up to `bound`, and their children are nodes of `S` with lower ranks. -/
structure Graded (children : ν → List ν) (S : Set ν) (bound : Nat) (rank : ν → Nat) : Prop where
  mem : ∀ {x y : ν}, x ∈ S → y ∈ children x → y ∈ S
  lt : ∀ {x y : ν}, x ∈ S → y ∈ children x → rank y < rank x
  le : ∀ {x : ν}, x ∈ S → rank x ≤ bound

/-- What leads to lower ranks does not lead back. -/
theorem acyclic_of_rank {children : ν → List ν} (rank : ν → Nat) (hlt : ∀ x, ∀ y ∈ children x, rank y < rank x) :
    Acyclic children := by
  have hdown : ∀ {x y}, Relation.TransGen (fun x y => y ∈ children x) x y → rank y < rank x := by
    intro x y hxy
    induction hxy with
    | single hy => exact hlt _ _ hy
    | tail _ hy ih => exact (hlt _ _ hy).trans ih
  exact fun x hx => Nat.lt_irrefl _ (hdown hx)

/-- An acyclic graph is graded by the number of nodes that a node leads to, if finitely many of its nodes have
children. -/
theorem exists_graded {children : ν → List ν} {S : Set ν} {bound : Nat}
    (hacyclic : ∀ x ∈ S, ¬ Relation.TransGen (fun x y => y ∈ children x) x x)
    (hmem : ∀ {x y}, x ∈ S → y ∈ children x → y ∈ S) {nodes : Finset ν}
    (hnodes : ∀ {x y}, x ∈ S → y ∈ children x → x ∈ nodes) (hcard : nodes.card ≤ bound) :
    ∃ rank, Graded children S bound rank ∧ ∀ x ∈ nodes, 0 < rank x := by
  classical
  refine ⟨fun x => (nodes.filter fun y => Reaches children x y).card,
    ⟨hmem, fun {x y} hx hy => ?_, fun _ => (Finset.card_filter_le _ _).trans hcard⟩, fun x hx => ?_⟩
  · refine Finset.card_lt_card ⟨fun z hz => ?_, fun hsub => ?_⟩
    · rw [Finset.mem_filter] at hz ⊢
      exact ⟨hz.1, .head hy hz.2⟩
    · -- The node leads to itself, and its child does not lead back to it.
      have hself := hsub (Finset.mem_filter.mpr ⟨hnodes hx hy, .refl⟩)
      exact hacyclic x hx (.head' hy (Finset.mem_filter.mp hself).2)
  · exact Finset.card_pos.mpr ⟨x, Finset.mem_filter.mpr ⟨hx, .refl⟩⟩

namespace Graded

variable {children : ν → List ν} {S : Set ν} {bound : Nat} {rank : ν → Nat} (hg : Graded children S bound rank)

include hg

/-- Unfolding a node to its rank or further gives one tree. -/
theorem unfold_eq_unfold (m : Nat) : ∀ {n : Nat} {x : ν}, x ∈ S → rank x ≤ m → rank x ≤ n →
    Tree.unfold children m x = Tree.unfold children n x := by
  have hleaf : ∀ {x}, x ∈ S → rank x ≤ 0 → children x = [] := fun {x} hx hzero => by
    rw [List.eq_nil_iff_forall_not_mem]
    intro y hy
    have := hg.lt hx hy
    omega
  induction m with
  | zero =>
    intro n x hx hm _
    cases n with
    | zero => rfl
    | succ n => rw [Tree.unfold, Tree.unfold, hleaf hx hm, List.map_nil]
  | succ m ih =>
    intro n x hx hm hn
    cases n with
    | zero => rw [Tree.unfold, Tree.unfold, hleaf hx hn, List.map_nil]
    | succ n =>
      rw [Tree.unfold, Tree.unfold]
      congr 1
      refine List.map_congr_left fun y hy => ?_
      have := hg.lt hx hy
      exact ih (hg.mem hx hy) (by omega) (by omega)

/-- Nothing is cut off where a graded graph is unfolded. -/
theorem unfold_eq {x : ν} (hx : x ∈ S) :
    Tree.unfold children bound x = .node x ((children x).map (Tree.unfold children bound)) := by
  have hle := hg.le hx
  rw [hg.unfold_eq_unfold bound (n := bound + 1) hx hle (by omega), Tree.unfold]

end Graded

/-! ### Trees of fingerprints -/

namespace Linked

variable {L : Linked σ ν} {g h : σ} {S : Set ν} {rank : ν → Nat}

/-- The tree of fingerprints below a node is that of the node over those below its children. -/
theorem pattern_eq (hg : Graded (L.children g) S (L.bound g) rank) {x : ν} (hx : x ∈ S) :
    L.pattern g x = .node (L.fingerprint g x) ((L.children g x).map (L.pattern g)) := by
  rw [pattern, tree, hg.unfold_eq hx, Tree.map_node, List.map_map]
  rfl

/-- Equal trees of fingerprints have equal trees below the root. -/
theorem map_pattern_children_eq (hg : Graded (L.children g) S (L.bound g) rank) {x y : ν} (hx : x ∈ S) (hy : y ∈ S)
    (hxy : L.pattern g x = L.pattern g y) :
    (L.children g x).map (L.pattern g) = (L.children g y).map (L.pattern g) := by
  rw [pattern_eq hg hx, pattern_eq hg hy] at hxy
  exact (Tree.node.inj hxy).2

/-- What one labelling tells of the members of two lists, a coarser labelling tells too. -/
private theorem map_eq_map_of_map_eq {β γ : Type} {f : ν → β} {e : ν → γ} (xs : List ν) : ∀ {ys : List ν},
    xs.map f = ys.map f → (∀ x ∈ xs, ∀ y ∈ ys, f x = f y → e x = e y) → xs.map e = ys.map e := by
  induction xs with
  | nil =>
    intro ys hys _
    obtain rfl : ys = [] := by simpa using hys.symm
    rfl
  | cons x xs ih =>
    intro ys hys hfine
    obtain ⟨y, ys, rfl⟩ : ∃ y ys', ys = y :: ys' := by
      cases ys with
      | nil => simp at hys
      | cons y ys => exact ⟨y, ys, rfl⟩
    obtain ⟨hhead, htail⟩ := List.cons.inj hys
    rw [List.map_cons, List.map_cons, hfine x (by simp) y (by simp) hhead,
      ih htail fun x' hx' y' hy' => hfine x' (by simp [hx']) y' (by simp [hy'])]

/-- Nodes with equal trees of fingerprints have equal trees of fingerprints to any depth. -/
theorem map_unfold_eq_of_pattern_eq (hg : Graded (L.children g) S (L.bound g) rank) (depth : Nat) :
    ∀ {x y : ν}, x ∈ S → y ∈ S → L.pattern g x = L.pattern g y →
      (Tree.unfold (L.children g) depth x).map (L.fingerprint g) =
        (Tree.unfold (L.children g) depth y).map (L.fingerprint g) := by
  induction depth with
  | zero =>
    intro x y _ _ hxy
    simp [Tree.unfold, fingerprint_eq_of_pattern_eq hxy]
  | succ depth ih =>
    intro x y hx hy hxy
    simp only [Tree.unfold, Tree.map_node, List.map_map, fingerprint_eq_of_pattern_eq hxy]
    congr 1
    exact map_eq_map_of_map_eq _ (map_pattern_children_eq hg hx hy hxy) fun x' hx' y' hy' heq =>
      ih (hg.mem hx hx') (hg.mem hy hy') heq

/-- Nodes have the fingerprints in `h` that they have in `g`, and the nodes of `S` have children in `h` that stand, in `g`,
for the trees of fingerprints of their children in `g`. -/
structure Alike (L : Linked σ ν) (S : Set ν) (g h : σ) : Prop where
  bound_eq : L.bound h = L.bound g
  fingerprint_eq : ∀ x : ν, L.fingerprint h x = L.fingerprint g x
  mem : ∀ {x y : ν}, x ∈ S → y ∈ L.children h x → y ∈ S
  map_pattern_eq : ∀ {x : ν}, x ∈ S → (L.children h x).map (L.pattern g) = (L.children g x).map (L.pattern g)

namespace Alike

variable (hg : Graded (L.children g) S (L.bound g) rank)

include hg

theorem refl : Alike L S g g :=
  ⟨rfl, fun _ => rfl, hg.mem, fun _ => rfl⟩

variable (halike : Alike L S g h)

include halike

theorem map_unfold_eq (depth : Nat) : ∀ {x : ν}, x ∈ S →
    (Tree.unfold (L.children h) depth x).map (L.fingerprint h) =
      (Tree.unfold (L.children g) depth x).map (L.fingerprint g) := by
  induction depth with
  | zero =>
    intro x hx
    simp [Tree.unfold, halike.fingerprint_eq x]
  | succ depth ih =>
    intro x hx
    simp only [Tree.unfold, Tree.map_node, List.map_map, halike.fingerprint_eq x]
    congr 1
    -- The children differ, but not in their trees, and so not in their trees to a lesser depth.
    calc (L.children h x).map (Tree.map (L.fingerprint h) ∘ Tree.unfold (L.children h) depth)
        = (L.children h x).map (Tree.map (L.fingerprint g) ∘ Tree.unfold (L.children g) depth) :=
          List.map_congr_left fun y hy => ih (halike.mem hx hy)
      _ = (L.children g x).map (Tree.map (L.fingerprint g) ∘ Tree.unfold (L.children g) depth) :=
          map_eq_map_of_map_eq _ (halike.map_pattern_eq hx) fun y hy z hz hyz =>
            map_unfold_eq_of_pattern_eq hg depth (halike.mem hx hy) (hg.mem hx hz) hyz

/-- The trees of fingerprints are those of the first graph. -/
theorem pattern_eq {x : ν} (hx : x ∈ S) : L.pattern h x = L.pattern g x := by
  rw [pattern, pattern, tree, tree, halike.bound_eq, halike.map_unfold_eq hg _ hx]

/-- Nothing is cut off where the second graph is unfolded. -/
theorem pattern_eq_node {x : ν} (hx : x ∈ S) :
    L.pattern h x = .node (L.fingerprint h x) ((L.children h x).map (L.pattern h)) := by
  have hbelow : (L.children h x).map (L.pattern h) = (L.children g x).map (L.pattern g) := by
    rw [← halike.map_pattern_eq hx]
    exact List.map_congr_left fun y hy => halike.pattern_eq hg (halike.mem hx hy)
  rw [halike.pattern_eq hg hx, hbelow, halike.fingerprint_eq x, Linked.pattern_eq hg hx]

end Alike

end Linked

/-! ### What redirections rest on -/

/-- What a redirection rests on: an occurrence below another one, with occurrences of the source and of the destination
that have the digest of the first, and an occurrence of the node that is asked that has the digest of the second. -/
structure Ground (children : ν → List ν) (cells : Array (Cell ν)) (r : Redirection ν) where
  /-- The occurrence that is redirected. -/
  child : Cell ν
  /-- The occurrence that it is a child of. -/
  parent : Cell ν
  /-- An occurrence of the source. -/
  source : Cell ν
  /-- An occurrence of the destination. -/
  destination : Cell ν
  /-- An occurrence of the node that is asked. -/
  holder : Cell ν
  child_mem : child ∈ cells
  parent_mem : parent ∈ cells
  source_mem : source ∈ cells
  destination_mem : destination ∈ cells
  holder_mem : holder ∈ cells
  mem_children : child.node ∈ children parent.node
  source_node : source.node = r.source
  destination_node : destination.node = r.destination
  holder_node : holder.node = r.holder
  source_digest : source.digest = child.digest
  destination_digest : destination.digest = child.digest
  holder_digest : holder.digest = parent.digest

/-- Every occurrence stands for the node of an occurrence with its digest. -/
def Stands (cells : Array (Cell ν)) (nodes : Array ν) : Prop :=
  ∀ (i : Nat) (n : ν), nodes[i]? = some n → ∃ own other, cells[i]? = some own ∧ other ∈ cells ∧ other.node = n ∧
    other.digest = own.digest

theorem stands_map_node (cells : Array (Cell ν)) : Stands cells (cells.map Cell.node) := by
  intro i n hn
  rw [Array.getElem?_map, Option.map_eq_some_iff] at hn
  obtain ⟨own, hown, rfl⟩ := hn
  exact ⟨own, own, hown, Array.mem_of_getElem? hown, rfl, rfl⟩

/-- A sweep redirects on the ground of digests. -/
theorem nonempty_ground_of_mem_sweep {children : ν → List ν} {cells : Array (Cell ν)}
    (hparents : ∀ {i : Nat} {cell : Cell ν} {q : Nat}, cells[i]? = some cell → cell.parent = some q →
      ∃ parent, cells[q]? = some parent ∧ cell.node ∈ children parent.node)
    {nodes : Array ν} {cs : List Candidate} {r : Redirection ν} (hstands : Stands cells nodes)
    (hcells : ∀ c ∈ cs, ∃ cell, cells[c.index]? = some cell ∧ cell.digest = c.digest)
    (hr : r ∈ (sweep cells nodes cs).redirections) : Nonempty (Ground children cells r) := by
  fun_induction sweep cells nodes cs with
  | case1 nodes previous current rest hgroup source destination holder hheld hsource swept ih =>
    obtain ⟨cell, hcell, hcellDigest⟩ := hcells current (by simp)
    obtain ⟨before, hbefore, hbeforeDigest⟩ := hcells previous (by simp)
    have hdigests : before.digest = cell.digest :=
      (hbeforeDigest.trans (Candidate.sameGroup_iff.mp hgroup).1).trans hcellDigest.symm
    obtain ⟨own, other, hown, hother, hotherNode, hotherDigest⟩ := hstands previous.index source hsource
    obtain rfl := Option.some.inj (hbefore.symm.trans hown)
    simp only [held, Option.bind_eq_bind, hcell, Option.bind_some, Option.bind_eq_some_iff, Option.pure_def,
      Option.some.injEq, Prod.mk.injEq] at hheld
    obtain ⟨q, hq, now, hnow, asked, hasked, rfl, rfl⟩ := hheld
    rcases List.mem_cons.mp hr with rfl | hr
    · obtain ⟨parent, hparent, hchild⟩ := hparents hcell hq
      obtain ⟨own', standing, hown', hstanding, hstandingNode, hstandingDigest⟩ := hstands _ _ hnow
      obtain rfl := Option.some.inj (hcell.symm.trans hown')
      obtain ⟨own'', above, hown'', habove, haboveNode, haboveDigest⟩ := hstands _ _ hasked
      obtain rfl := Option.some.inj (hparent.symm.trans hown'')
      exact ⟨⟨cell, parent, other, standing, above, Array.mem_of_getElem? hcell, Array.mem_of_getElem? hparent, hother,
        hstanding, habove, hchild, hotherNode, hstandingNode, haboveNode, hotherDigest.trans hdigests,
        hstandingDigest, haboveDigest⟩⟩
    · refine ih (fun i n hn => ?_) (fun c hc => hcells c (List.mem_cons_of_mem _ hc)) hr
      -- The occurrence now stands for the source, which has its digest.
      rw [Array.getElem?_setIfInBounds] at hn
      split_ifs at hn with hi
      · obtain rfl := Option.some.inj hn
        exact ⟨cell, other, hi ▸ hcell, hother, hotherNode, hotherDigest.trans hdigests⟩
      · exact hstands i n hn
  | case2 nodes previous current rest _ _ ih =>
    exact ih hstands (fun c hc => hcells c (List.mem_cons_of_mem _ hc)) hr
  | case3 nodes previous current rest _ ih =>
    exact ih hstands (fun c hc => hcells c (List.mem_cons_of_mem _ hc)) hr
  | case4 => exact absurd hr List.not_mem_nil

namespace Linked

variable {L : Linked σ ν} {g : σ} {root : ν} {level : Nat} {r : Redirection ν}

/-- What every redirection of a plan rests on. -/
theorem nonempty_ground (hr : r ∈ L.plan g root level) :
    Nonempty (Ground (L.children g) (L.occurrences g root) r) := by
  refine nonempty_ground_of_mem_sweep (fun {i cell q} hcell hq => ?_) (stands_map_node _) (fun c hc => ?_) hr
  · rw [← Array.getElem?_toList] at hcell
    rcases (L.layout_occurrences g root).root_or_child hcell with ⟨hnone, -⟩ | ⟨q', parent, -, hq', hparent, hmem⟩
    · exact nomatch hnone.symm.trans hq
    · obtain rfl := Option.some.inj (hq.symm.trans hq')
      exact ⟨parent, by rwa [Array.getElem?_toList] at hparent, hmem⟩
  · obtain ⟨cell, hcell, hdigest, -⟩ := mem_candidates.mp hc
    exact ⟨cell, hcell, hdigest⟩

/-- An occurrence is of a node that the root leads to. -/
theorem mem_of_mem_occurrences {S : Set ν} (hmem : ∀ {x y}, x ∈ S → y ∈ L.children g x → y ∈ S) (hroot : root ∈ S)
    {cell : Cell ν} (hcell : cell ∈ L.occurrences g root) : cell.node ∈ S := by
  obtain ⟨i, hi⟩ := Array.getElem?_of_mem hcell
  rw [← Array.getElem?_toList] at hi
  have hreach := (L.layout_occurrences g root).reaches i hi
  generalize cell.node = x at hreach
  induction hreach with
  | refl => exact hroot
  | tail _ hlink ih => exact hmem ih hlink

/-- If equal digests stand for equal trees of fingerprints, then a redirection puts a node in the place of one with the
same tree, and the node that is asked has a child with that tree. -/
theorem pattern_eq_of_mem_plan {S : Set ν} {rank : ν → Nat} (hg : Graded (L.children g) S (L.bound g) rank)
    (hroot : root ∈ S) (hdiscerning : L.Discerning g root) (hr : r ∈ L.plan g root level) :
    r.holder ∈ S ∧ r.source ∈ S ∧ L.pattern g r.source = L.pattern g r.destination ∧
      L.pattern g r.destination ∈ (L.children g r.holder).map (L.pattern g) := by
  obtain ⟨G⟩ := nonempty_ground hr
  have hmem : ∀ {cell}, cell ∈ L.occurrences g root → cell.node ∈ S := mem_of_mem_occurrences hg.mem hroot
  have hsource := hdiscerning _ G.source_mem _ G.child_mem G.source_digest
  have hdestination := hdiscerning _ G.destination_mem _ G.child_mem G.destination_digest
  have hholder := hdiscerning _ G.holder_mem _ G.parent_mem G.holder_digest
  -- The occurrence above and the node that is asked have children with the same trees.
  have hchildren := map_pattern_children_eq hg (hmem G.holder_mem) (hmem G.parent_mem) hholder
  rw [← G.holder_node, ← G.source_node, ← G.destination_node]
  refine ⟨hmem G.holder_mem, hmem G.source_mem, hsource.trans hdestination.symm, ?_⟩
  rw [hchildren, hdestination]
  exact List.mem_map_of_mem G.mem_children

end Linked

end Schemata.Sharing
