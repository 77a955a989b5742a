import Schemata.Proofs.Digest
import Schemata.Proofs.Sharing.Unfolding

/-!
# Occurrences of equal subtrees

The digest of an occurrence is told by the tree of fingerprints below its node, wherever the node occurs and whatever was
hashed before it (`Tree.digest`). And nothing is left out of the occurrences: with a node all of its children occur below
it (`Full`). So below one occurrence, nodes that unfold alike occur with equal digests.
-/

namespace Schemata.Sharing

open Hashing (Yields yields_digest yields_join)

variable {ν ν' σ : Type}

/-! ### The digest of a tree -/

namespace Tree

mutual

/-- The digest of the text of a tree, put together from those of its subtrees. -/
def digest (fingerprint : ν → String) : Tree ν → Digest
  | .node n ts =>
    ((digestAll fingerprint ts).foldl (fun start d => (start.append d).append (.ofText ","))
      ((Digest.ofText (fingerprint n)).append (.ofText "("))).append (.ofText ")")

/-- The digests of several trees. -/
def digestAll (fingerprint : ν → String) : List (Tree ν) → List Digest
  | [] => []
  | t :: ts => t.digest fingerprint :: digestAll fingerprint ts

end

mutual

/-- Every label with the digest of its subtree. -/
def annotate (fingerprint : ν → String) : Tree ν → Tree (ν × Digest)
  | .node n ts => .node (n, digest fingerprint (.node n ts)) (annotateAll fingerprint ts)

/-- Several trees with the digests of their subtrees. -/
def annotateAll (fingerprint : ν → String) : List (Tree ν) → List (Tree (ν × Digest))
  | [] => []
  | t :: ts => t.annotate fingerprint :: annotateAll fingerprint ts

end

variable {fingerprint : ν → String}

theorem yields_joinChildren (ds : List Digest) : ∀ (comma start : Digest),
    Yields (joinChildren comma start ds) (ds.foldl (fun start d => (start.append d).append comma) start) := by
  induction ds with
  | nil => exact fun _ start => .pure start
  | cons d ds ih => exact fun comma start => .bind (yields_join _ _) (.bind (yields_join _ _) (ih comma _))

theorem map_label_annotateAll (ts : List (Tree ν)) :
    (annotateAll fingerprint ts).map (fun t => t.label.2) = digestAll fingerprint ts := by
  induction ts with
  | nil => rfl
  | cons t ts ih =>
    cases t
    rw [annotateAll, List.map_cons, ih, digestAll, annotate, label]

mutual

/-- Hashing a tree gives every label the digest of its subtree. -/
theorem yields_withDigests (t : Tree ν) : Yields (t.withDigests fingerprint) (t.annotate fingerprint) := by
  cases t with
  | node n ts =>
    rw [withDigests, annotate, digest, ← map_label_annotateAll]
    exact .bind (yields_withDigestsAll ts) (.bind (yields_digest _) (.bind (yields_digest _) (.bind (yields_join _ _)
      (.bind (yields_digest _) (.bind (yields_joinChildren _ _ _) (.bind (yields_digest _) (.bind (yields_join _ _)
        (.pure _))))))))

theorem yields_withDigestsAll (ts : List (Tree ν)) :
    Yields (withDigestsAll fingerprint ts) (annotateAll fingerprint ts) := by
  cases ts with
  | nil => exact .pure _
  | cons t ts => exact .bind (yields_withDigests t) (.bind (yields_withDigestsAll ts) (.pure _))

end

mutual

/-- The digest of a tree is told by its fingerprints. -/
theorem digest_map {print : ν' → String} (f : ν → ν') (t : Tree ν) : (t.map f).digest print = t.digest (print ∘ f) := by
  cases t with
  | node n ts =>
    rw [map_node, digest, digest, digestAll_map f ts]
    rfl

theorem digestAll_map {print : ν' → String} (f : ν → ν') (ts : List (Tree ν)) :
    digestAll print (ts.map (map f)) = digestAll (print ∘ f) ts := by
  cases ts with
  | nil => rfl
  | cons t ts => rw [List.map_cons, digestAll, digestAll, digest_map f t, digestAll_map f ts]

end

end Tree

/-- The occurrences of a tree are those of the tree with its digests. -/
theorem occurrences_eq (fingerprint : ν → String) (t : Tree ν) :
    occurrences fingerprint t = (cells none 0 (t.annotate fingerprint)).toArray :=
  congrArg (fun t => (cells none 0 t).toArray) (Tree.yields_withDigests t {} Hasher.sound_empty).1

/-! ### Nothing is left out -/

/-- Occurrences in order, the first at position `index`. The roots occur with the parent `parent`, and every occurrence
has all children of its node below it. The digests are those that `digest` tells. -/
structure Full (children : ν → List ν) (digest : ν → Digest) (index : Nat) (parent : Option Nat) (roots : List ν)
    (cells : List (Cell ν)) : Prop where
  digest_eq : ∀ cell ∈ cells, cell.digest = digest cell.node
  root : ∀ n ∈ roots, ∃ (r : Nat) (cell : Cell ν), cells[r]? = some cell ∧ cell.parent = parent ∧ cell.node = n
  child : ∀ (r : Nat) (cell : Cell ν), cells[r]? = some cell → ∀ n ∈ children cell.node,
    ∃ (s : Nat) (below : Cell ν), cells[s]? = some below ∧ below.parent = some (index + r) ∧ below.node = n

namespace Full

variable {children : ν → List ν} {digest : ν → Digest} {index : Nat} {parent : Option Nat}

theorem nil (children : ν → List ν) (digest : ν → Digest) (index : Nat) (parent : Option Nat) :
    Full children digest index parent [] [] :=
  ⟨by simp, by simp, by simp⟩

/-- A node on top of its children. -/
theorem cons {cells : List (Cell ν)} {n : ν} (h : Full children digest (index + 1) (some index) (children n) cells) :
    Full children digest index parent [n] (⟨n, parent, digest n⟩ :: cells) := by
  refine ⟨fun cell hcell => ?_, fun m hm => ⟨0, _, rfl, rfl, (List.mem_singleton.mp hm).symm⟩, fun r cell hcell m hm => ?_⟩
  · rcases List.mem_cons.mp hcell with rfl | hcell
    · rfl
    · exact h.digest_eq cell hcell
  · cases r with
    | zero =>
      obtain rfl := Option.some.inj hcell
      obtain ⟨s, below, hbelow, hparent, hnode⟩ := h.root m hm
      exact ⟨s + 1, below, hbelow, hparent, hnode⟩
    | succ r =>
      obtain ⟨s, below, hbelow, hparent, hnode⟩ := h.child r cell hcell m hm
      exact ⟨s + 1, below, hbelow, by rw [hparent]; congr 1; omega, hnode⟩

/-- Occurrences side by side. -/
theorem append {roots roots' : List ν} {cells cells' : List (Cell ν)} (h : Full children digest index parent roots cells)
    (h' : Full children digest (index + cells.length) parent roots' cells') :
    Full children digest index parent (roots ++ roots') (cells ++ cells') := by
  have hleft : ∀ {r cell}, cells[r]? = some cell → (cells ++ cells')[r]? = some cell := fun {r cell} hr => by
    rw [List.getElem?_append_left (List.getElem?_eq_some_iff.mp hr).1, hr]
  have hright : ∀ {r cell}, cells'[r]? = some cell → (cells ++ cells')[cells.length + r]? = some cell :=
    fun {r cell} hr => by rw [List.getElem?_append_right (by omega), Nat.add_sub_cancel_left, hr]
  refine ⟨fun cell hcell => ?_, fun n hn => ?_, fun r cell hcell n hn => ?_⟩
  · exact (List.mem_append.mp hcell).elim (h.digest_eq cell) (h'.digest_eq cell)
  · rcases List.mem_append.mp hn with hn | hn
    · obtain ⟨r, cell, hcell, hrest⟩ := h.root n hn
      exact ⟨r, cell, hleft hcell, hrest⟩
    · obtain ⟨r, cell, hcell, hrest⟩ := h'.root n hn
      exact ⟨cells.length + r, cell, hright hcell, hrest⟩
  · rcases Nat.lt_or_ge r cells.length with hr | hr
    · rw [List.getElem?_append_left hr] at hcell
      obtain ⟨s, below, hbelow, hrest⟩ := h.child r cell hcell n hn
      exact ⟨s, below, hleft hbelow, hrest⟩
    · rw [List.getElem?_append_right hr] at hcell
      obtain ⟨s, below, hbelow, hparent, hnode⟩ := h'.child _ cell hcell n hn
      exact ⟨cells.length + s, below, hright hbelow, by rw [hparent]; congr 1; omega, hnode⟩

end Full

namespace Linked

variable {L : Linked σ ν} {g : σ} {S : Set ν} {rank : ν → Nat} (hg : Graded (L.children g) S (L.bound g) rank)

/-- The digest of the tree below a node. -/
def digest (L : Linked σ ν) (g : σ) (n : ν) : Digest :=
  (L.tree g n).digest (L.fingerprint g)

/-- The digest is told by the tree of fingerprints. -/
theorem digest_eq_digest_pattern (L : Linked σ ν) (g : σ) (n : ν) : L.digest g n = (L.pattern g n).digest id := by
  rw [pattern, Tree.digest_map]
  rfl

private theorem full_cellsAll {depth : Nat}
    (ih : ∀ (n : ν) (parent : Option Nat) (index : Nat), n ∈ S → rank n ≤ depth →
      Full (L.children g) (L.digest g) index parent [n]
        (cells parent index ((Tree.unfold (L.children g) depth n).annotate (L.fingerprint g))))
    (ns : List ν) : ∀ parent index : Nat, (∀ n ∈ ns, n ∈ S ∧ rank n ≤ depth) →
      Full (L.children g) (L.digest g) index (some parent) ns (cellsAll parent index
        (Tree.annotateAll (L.fingerprint g) (ns.map (Tree.unfold (L.children g) depth)))) := by
  induction ns with
  | nil => exact fun _ _ _ => .nil _ _ _ _
  | cons n ns ihns =>
    intro parent index hns
    rw [List.map_cons, Tree.annotateAll, cellsAll]
    exact (ih n (some parent) index (hns n (by simp)).1 (hns n (by simp)).2).append
      (ihns parent _ fun m hm => hns m (by simp [hm]))

include hg

private theorem full_cells (depth : Nat) : ∀ (n : ν) (parent : Option Nat) (index : Nat), n ∈ S → rank n ≤ depth →
    Full (L.children g) (L.digest g) index parent [n]
      (cells parent index ((Tree.unfold (L.children g) depth n).annotate (L.fingerprint g))) := by
  -- Nothing is cut off at a depth beyond the rank.
  have htree : ∀ {depth n}, n ∈ S → rank n ≤ depth →
      (Tree.unfold (L.children g) depth n).digest (L.fingerprint g) = L.digest g n := fun hn hrank => by
    rw [digest, tree, hg.unfold_eq_unfold _ hn hrank (hg.le hn)]
  induction depth with
  | zero =>
    intro n parent index hn hrank
    have hleaf : L.children g n = [] := List.eq_nil_iff_forall_not_mem.mpr fun m hm => by
      have := hg.lt hn hm
      omega
    have htop := htree hn hrank
    rw [Tree.unfold] at htop ⊢
    rw [Tree.annotate, htop, cells]
    refine .cons ?_
    rw [hleaf]
    exact .nil _ _ _ _
  | succ depth ih =>
    intro n parent index hn hrank
    have htop := htree hn hrank
    rw [Tree.unfold] at htop ⊢
    rw [Tree.annotate, htop, cells]
    refine .cons (full_cellsAll ih _ index (index + 1) fun m hm => ⟨hg.mem hn hm, ?_⟩)
    have := hg.lt hn hm
    omega

variable {root : ν} (hroot : root ∈ S)

include hroot

/-- **Nothing is left out of the occurrences below a node**, and their digests are those of the trees below their nodes. -/
theorem full_occurrences : Full (L.children g) (L.digest g) 0 none [root] (L.occurrences g root).toList := by
  rw [occurrences, occurrences_eq, List.toList_toArray]
  exact full_cells hg (L.bound g) root none 0 hroot (hg.le hroot)

/-- What a node leads to occurs below it. -/
theorem exists_occurrence {n : ν} (hn : Reaches (L.children g) root n) :
    ∃ (r : Nat) (cell : Cell ν), (L.occurrences g root)[r]? = some cell ∧ cell.node = n := by
  have hfull := full_occurrences hg hroot
  induction hn with
  | refl =>
    obtain ⟨r, cell, hcell, -, hnode⟩ := hfull.root root (by simp)
    exact ⟨r, cell, by rwa [Array.getElem?_toList] at hcell, hnode⟩
  | tail _ hlink ih =>
    obtain ⟨r, cell, hcell, rfl⟩ := ih
    obtain ⟨s, below, hbelow, -, hnode⟩ := hfull.child r cell (by rwa [Array.getElem?_toList]) _ hlink
    exact ⟨s, below, by rwa [Array.getElem?_toList] at hbelow, hnode⟩

/-- Nor is anything left out of the candidates: below a node that the root leads to, the children of its children have
seats under one occurrence of the node. -/
theorem exists_candidates {n : ν} (hn : Reaches (L.children g) root n) :
    ∃ ancestor, ∀ m ∈ L.children g n, ∀ k ∈ L.children g m, ∃ c ∈ candidates (L.occurrences g root) 2,
      c.digest = L.digest g k ∧ c.ancestor = ancestor ∧
        ∃ C : Seat (L.occurrences g root) c, C.parent.node = m ∧ C.cell.node = k := by
  have hfull := full_occurrences hg hroot
  obtain ⟨r, top, htop, rfl⟩ := exists_occurrence hg hroot hn
  have hchild : ∀ {r : Nat} {cell : Cell ν}, (L.occurrences g root)[r]? = some cell → ∀ n ∈ L.children g cell.node,
      ∃ (s : Nat) (below : Cell ν), (L.occurrences g root)[s]? = some below ∧ below.parent = some r ∧ below.node = n := by
    intro r cell hcell n hn
    obtain ⟨s, below, hbelow, hparent, hnode⟩ := hfull.child r cell (by rwa [Array.getElem?_toList]) n hn
    exact ⟨s, below, by rwa [Array.getElem?_toList] at hbelow, by rwa [Nat.zero_add] at hparent, hnode⟩
  refine ⟨r, fun m hm k hk => ?_⟩
  obtain ⟨s, parent, hparent, hparentParent, rfl⟩ := hchild htop m hm
  obtain ⟨t, cell, hcell, hcellParent, rfl⟩ := hchild hparent k hk
  have hdigest : cell.digest = L.digest g cell.node :=
    hfull.digest_eq cell (Array.mem_toList_iff.mpr (Array.mem_of_getElem? hcell))
  refine ⟨⟨cell.digest, r, t⟩, mem_candidates.mpr ⟨cell, hcell, rfl, ?_⟩, hdigest, rfl,
    ⟨cell, s, parent, top, hcell, rfl, hcellParent, hparent, hparentParent, htop⟩, rfl, rfl⟩
  simp only [climb, Array.getElem?_map, hcell, hparent, Option.map_some, Option.join_some, hcellParent, hparentParent,
    Option.bind_some]

omit hg hroot in
/-- If the digests tell the trees of one graph apart, they tell apart those of a graph that is alike and has nothing else
below the root. -/
theorem Alike.discerning {h : σ} {rank' : ν → Nat} (hg : Graded (L.children g) S (L.bound g) rank)
    (hh : Graded (L.children h) S (L.bound h) rank') (halike : L.Alike S g h) (hroot : root ∈ S)
    (hreach : ∀ {x : ν}, Reaches (L.children h) root x → Reaches (L.children g) root x)
    (hdiscerning : L.Discerning g root) : L.Discerning h root := by
  -- Every occurrence in the second graph has one in the first, with the same node and the same digest.
  have hfirst : ∀ cell ∈ L.occurrences h root, ∃ cell' ∈ L.occurrences g root,
      cell'.node = cell.node ∧ cell'.digest = cell.digest ∧ cell.node ∈ S := by
    intro cell hcell
    obtain ⟨r, hr⟩ := Array.getElem?_of_mem hcell
    have hnode := (L.layout_occurrences h root).reaches r (by rwa [Array.getElem?_toList])
    obtain ⟨s, cell', hs, hnode'⟩ := exists_occurrence hg hroot (hreach hnode)
    have hmem : cell.node ∈ S := mem_of_mem_occurrences hh.mem hroot hcell
    refine ⟨cell', Array.mem_of_getElem? hs, hnode', ?_, hmem⟩
    rw [(full_occurrences hg hroot).digest_eq cell' (Array.mem_toList_iff.mpr (Array.mem_of_getElem? hs)),
      (full_occurrences hh hroot).digest_eq cell (Array.mem_toList_iff.mpr hcell), hnode', digest_eq_digest_pattern,
      digest_eq_digest_pattern, halike.pattern_eq hg hmem]
  intro a ha b hb hab
  obtain ⟨a', ha', hanode, hadigest, hamem⟩ := hfirst a ha
  obtain ⟨b', hb', hbnode, hbdigest, hbmem⟩ := hfirst b hb
  rw [halike.pattern_eq hg hamem, halike.pattern_eq hg hbmem, ← hanode, ← hbnode]
  exact hdiscerning a' ha' b' hb' (by rw [hadigest, hbdigest, hab])

end Linked

end Schemata.Sharing
