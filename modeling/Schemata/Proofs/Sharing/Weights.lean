import Schemata.Proofs.Mark
import Schemata.Proofs.Sharing.Unfolding

/-!
# Weights

A digest may take different trees for equal, but it never forgets the length of a text. The *weight* of a node is the
length of the text of the tree below it (`Linked.weight`). Children weigh less than the nodes that hold them, and nodes
that are taken for equal weigh the same, so a redirection leads from a node to a lighter one, whatever the digests are
(`Linked.weight_source_lt`). Weights are those of the graph before the first redirection; they bound every path of the
graph after the last (`Linked.weight_lt_of_mem_children_share`).
-/

namespace Schemata.Sharing

variable {ν σ : Type}

open Text (byteLength byteLength_append)

/-! ### The length of a digest -/

namespace Hashing

variable {α β : Type}

theorem run_bind (m : Hashing α) (f : α → Hashing β) (h : Hasher) : (m >>= f) h = f (m h).1 (m h).2 :=
  rfl

theorem run_pure (a : α) (h : Hasher) : (pure a : Hashing α) h = (a, h) :=
  rfl

end Hashing

theorem length_digest (s : String) (h : Hasher) : (Hasher.digest s h).1.length = byteLength s :=
  rfl

theorem length_join (a b : Digest) (h : Hasher) : (Hasher.join a b h).1.length = a.length + b.length :=
  rfl

namespace Tree

theorem length_joinChildren (comma : Digest) (ds : List Digest) : ∀ (start : Digest) (h : Hasher),
    (joinChildren comma start ds h).1.length = start.length + (ds.map fun d => d.length + comma.length).sum := by
  induction ds with
  | nil => exact fun _ _ => rfl
  | cons d ds ih =>
    intro start h
    simp only [joinChildren, Hashing.run_bind, ih, length_join, List.map_cons, List.sum_cons]
    omega

mutual

/-- The digest at the root of a tree has the length of its text. -/
theorem length_withDigests (fingerprint : ν → String) (t : Tree ν) (h : Hasher) :
    (t.withDigests fingerprint h).1.label.2.length = byteLength (t.text fingerprint) := by
  cases t with
  | node n ts =>
    have hbelow := length_withDigestsAll fingerprint ts h
    rw [text, byteLength_append, byteLength_append, byteLength_append, ← hbelow, withDigests]
    simp only [Hashing.run_bind, Hashing.run_pure, label, length_join, length_joinChildren, length_digest, List.map_map,
      Function.comp_def]

theorem length_withDigestsAll (fingerprint : ν → String) (ts : List (Tree ν)) (h : Hasher) :
    ((withDigestsAll fingerprint ts h).1.map fun t => t.label.2.length + byteLength ",").sum =
      byteLength (textAll fingerprint ts) := by
  cases ts with
  | nil => rfl
  | cons t ts =>
    have hhead := length_withDigests fingerprint t h
    have htail := length_withDigestsAll fingerprint ts (t.withDigests fingerprint h).2
    rw [textAll, byteLength_append, byteLength_append, ← hhead, ← htail, withDigestsAll]
    simp only [Hashing.run_bind, Hashing.run_pure, List.map_cons, List.sum_cons]

end

/-- A text is longer than the texts in it. -/
theorem byteLength_text_le (fingerprint : ν → String) {t : Tree ν} {ts : List (Tree ν)} (ht : t ∈ ts) :
    byteLength (t.text fingerprint) ≤ byteLength (textAll fingerprint ts) := by
  induction ts with
  | nil => exact absurd ht List.not_mem_nil
  | cons s ts ih =>
    rw [textAll, byteLength_append, byteLength_append]
    rcases List.mem_cons.mp ht with rfl | ht
    · omega
    · have := ih ht
      omega

end Tree

/-- The topmost occurrence of a tree stands before those below it. -/
theorem cells_withDigests (fingerprint : ν → String) (n : ν) (ts : List (Tree ν)) (h : Hasher) (parent : Option Nat)
    (index : Nat) :
    cells parent index ((Tree.node n ts).withDigests fingerprint h).1 =
      ⟨n, parent, ((Tree.node n ts).withDigests fingerprint h).1.label.2⟩ ::
        cellsAll index (index + 1) (Tree.withDigestsAll fingerprint ts h).1 := by
  rw [Tree.withDigests]
  simp only [Hashing.run_bind, Hashing.run_pure, Tree.label, cells]

namespace Linked

variable {L : Linked σ ν} {g h : σ} {S : Set ν} {rank : ν → Nat} {root : ν} {level : Nat} {r : Redirection ν} {x y : ν}

/-- The length of the text of the tree below a node. -/
def weight (L : Linked σ ν) (g : σ) (n : ν) : Nat :=
  byteLength ((L.tree g n).text (L.fingerprint g))

section Graded

variable (hg : Graded (L.children g) S (L.bound g) rank)

include hg

/-- Children weigh less than the nodes that hold them. -/
theorem weight_lt_of_mem_children (hx : x ∈ S) (hy : y ∈ L.children g x) : L.weight g y < L.weight g x := by
  have htree : L.tree g x = .node x ((L.children g x).map (L.tree g)) := hg.unfold_eq hx
  have hle := Tree.byteLength_text_le (L.fingerprint g) (List.mem_map_of_mem (f := L.tree g) hy)
  have hopen : byteLength "(" = 1 := rfl
  rw [weight, weight, htree, Tree.text, byteLength_append, byteLength_append, byteLength_append]
  omega

/-! ### The weight of an occurrence -/

omit hg in
private theorem length_of_mem_cellsAll {depth : Nat}
    (ih : ∀ (n : ν) (hasher : Hasher) (parent : Option Nat) (index : Nat), n ∈ S → rank n ≤ depth →
      ∀ cell ∈ cells parent index ((Tree.unfold (L.children g) depth n).withDigests (L.fingerprint g) hasher).1,
        cell.digest.length = L.weight g cell.node)
    (ns : List ν) : ∀ (hasher : Hasher) (parent index : Nat), (∀ n ∈ ns, n ∈ S ∧ rank n ≤ depth) →
      ∀ cell ∈ cellsAll parent index
        (Tree.withDigestsAll (L.fingerprint g) (ns.map (Tree.unfold (L.children g) depth)) hasher).1,
        cell.digest.length = L.weight g cell.node := by
  induction ns with
  | nil => exact fun _ _ _ _ cell hcell => absurd hcell List.not_mem_nil
  | cons n ns ihns =>
    intro hasher parent index hns cell hcell
    rw [List.map_cons, Tree.withDigestsAll] at hcell
    simp only [Hashing.run_bind, Hashing.run_pure] at hcell
    rw [cellsAll] at hcell
    rcases List.mem_append.mp hcell with hcell | hcell
    · exact ih n hasher _ _ (hns n (by simp)).1 (hns n (by simp)).2 cell hcell
    · exact ihns _ _ _ (fun m hm => hns m (by simp [hm])) cell hcell

private theorem length_of_mem_cells (depth : Nat) : ∀ (n : ν) (hasher : Hasher) (parent : Option Nat) (index : Nat),
    n ∈ S → rank n ≤ depth →
      ∀ cell ∈ cells parent index ((Tree.unfold (L.children g) depth n).withDigests (L.fingerprint g) hasher).1,
        cell.digest.length = L.weight g cell.node := by
  -- Nothing is cut off at a depth beyond the rank, so the topmost digest has the length of the whole text.
  have htop : ∀ {depth n}, n ∈ S → rank n ≤ depth → ∀ hasher,
      ((Tree.unfold (L.children g) depth n).withDigests (L.fingerprint g) hasher).1.label.2.length = L.weight g n := by
    intro depth n hn hrank hasher
    rw [Tree.length_withDigests, weight, tree, hg.unfold_eq_unfold depth hn hrank (hg.le hn)]
  induction depth with
  | zero =>
    intro n hasher parent index hn hrank cell hcell
    have hdigest := htop hn hrank hasher
    rw [Tree.unfold] at hcell hdigest
    rw [cells_withDigests] at hcell
    rcases List.mem_cons.mp hcell with rfl | hcell
    · exact hdigest
    · exact absurd hcell List.not_mem_nil
  | succ depth ih =>
    intro n hasher parent index hn hrank cell hcell
    have hdigest := htop hn hrank hasher
    rw [Tree.unfold] at hcell hdigest
    rw [cells_withDigests] at hcell
    rcases List.mem_cons.mp hcell with rfl | hcell
    · exact hdigest
    · refine length_of_mem_cellsAll ih _ hasher _ _ (fun m hm => ⟨hg.mem hn hm, ?_⟩) cell hcell
      have := hg.lt hn hm
      omega

/-- The digest of an occurrence has the weight of its node for its length. -/
theorem length_digest_eq_weight (hroot : root ∈ S) {cell : Cell ν} (hcell : cell ∈ L.occurrences g root) :
    cell.digest.length = L.weight g cell.node :=
  length_of_mem_cells hg (L.bound g) root {} none 0 hroot (hg.le hroot) cell (List.mem_toArray.mp hcell)

/-! ### Redirections lead to lighter nodes -/

/-- A node is only ever asked to hold a lighter one. -/
theorem weight_source_lt (hroot : root ∈ S) (hr : r ∈ L.plan g root level) :
    r.source ∈ S ∧ L.weight g r.source < L.weight g r.holder := by
  obtain ⟨G⟩ := nonempty_ground hr
  have hmem : ∀ {cell}, cell ∈ L.occurrences g root → cell.node ∈ S := mem_of_mem_occurrences hg.mem hroot
  have hlength : ∀ {cell}, cell ∈ L.occurrences g root → cell.digest.length = L.weight g cell.node :=
    length_digest_eq_weight hg hroot
  refine ⟨G.source_node ▸ hmem G.source_mem, ?_⟩
  calc L.weight g r.source
      = G.child.digest.length := by rw [← G.source_node, ← hlength G.source_mem, G.source_digest]
    _ = L.weight g G.child.node := hlength G.child_mem
    _ < L.weight g G.parent.node := weight_lt_of_mem_children hg (hmem G.parent_mem) G.mem_children
    _ = G.holder.digest.length := by rw [← hlength G.parent_mem, G.holder_digest]
    _ = L.weight g r.holder := by rw [hlength G.holder_mem, G.holder_node]

/-- Redirections of a plan only ever lead to lighter nodes, whatever the digests are, if a redirection gives no node
another child, except for the node that is asked, which may get the source. -/
theorem weight_lt_of_mem_children_foldl
    (hredirect : ∀ {h : σ} {r : Redirection ν} {x y : ν}, y ∈ L.children (L.redirect h r) x →
      y ∈ L.children h x ∨ (x = r.holder ∧ y = r.source))
    (hroot : root ∈ S) {rs : List (Redirection ν)} (hrs : ∀ r ∈ rs, r ∈ L.plan g root level) (hx : x ∈ S)
    (hy : y ∈ L.children (rs.foldl L.redirect g) x) : y ∈ S ∧ L.weight g y < L.weight g x := by
  suffices hdown : ∀ {x y}, x ∈ S → y ∈ L.children (rs.foldl L.redirect g) x → y ∈ S ∧ L.weight g y < L.weight g x from
    hdown hx hy
  refine List.foldlRecOn (motive := fun h => ∀ {x y}, x ∈ S → y ∈ L.children h x → y ∈ S ∧ L.weight g y < L.weight g x)
    _ _ (fun hx hy => ⟨hg.mem hx hy, weight_lt_of_mem_children hg hx hy⟩) fun h hh r hr x y hx hy => ?_
  rcases hredirect hy with hy | ⟨rfl, rfl⟩
  · exact hh hx hy
  · exact weight_source_lt hg hroot (hrs r hr)

/-- **Sharing only ever leads to lighter nodes.** -/
theorem weight_lt_of_mem_children_share
    (hredirect : ∀ {h : σ} {r : Redirection ν} {x y : ν}, y ∈ L.children (L.redirect h r) x →
      y ∈ L.children h x ∨ (x = r.holder ∧ y = r.source))
    (hroot : root ∈ S) (hx : x ∈ S) (hy : y ∈ L.children (L.share g root level) x) :
    y ∈ S ∧ L.weight g y < L.weight g x :=
  weight_lt_of_mem_children_foldl hg hredirect hroot (fun _ hr => hr) hx hy

end Graded

end Linked

end Schemata.Sharing
