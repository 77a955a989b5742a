import Mathlib.Logic.Relation
import Schemata.Proofs.Sharing.Occurrences
import Schemata.Proofs.Sharing.Sweep

/-!
# Where occurrences stand

The occurrences of a tree are nodes that the root leads to. In a graph where every node is a child of one node at
most, every node occurs once (`Layout.position_unique`), so that positions and nodes can be exchanged.

A candidate at level two has a *seat*: the node itself, its parent and the parent of that (`exists_seat`). Candidates
with one ancestor stand in the order of their parents (`Layout.parent_lt_of_lt`).
-/

open scoped List

namespace Schemata.Sharing

variable {ν : Type} {children : ν → List ν} {root : ν}

/-- A node leads to its children, and to what they lead to. -/
abbrev Reaches (children : ν → List ν) : ν → ν → Prop :=
  Relation.ReflTransGen fun x y => y ∈ children x

namespace Layout

variable {cells : List (Cell ν)} (h : Layout children 0 none [root] cells)

include h

/-- An occurrence is the root, or a child of an earlier occurrence. -/
theorem root_or_child {r : Nat} {cell : Cell ν} (hcell : cells[r]? = some cell) :
    (cell.parent = none ∧ cell.node = root) ∨
      ∃ q holder, q < r ∧ cell.parent = some q ∧ cells[q]? = some holder ∧ cell.node ∈ children holder.node := by
  rcases h.link r cell hcell with ⟨hparent, hnode⟩ | ⟨q, holder, hq, hparent, hholder, hnode⟩
  · exact .inl ⟨hparent, List.mem_singleton.mp hnode⟩
  · rw [Nat.zero_add] at hparent
    exact .inr ⟨q, holder, hq, hparent, hholder, hnode⟩

/-- The root leads to every occurrence. -/
theorem reaches (r : Nat) : ∀ {cell : Cell ν}, cells[r]? = some cell → Reaches children root cell.node := by
  induction r using Nat.strongRecOn with
  | ind r ih =>
    intro cell hcell
    rcases h.root_or_child hcell with ⟨-, hnode⟩ | ⟨q, holder, hq, -, hholder, hnode⟩
    · rw [hnode]
    · exact (ih q hq hholder).tail hnode

/-- Below an occurrence a child stands once, if it is there once among the children. -/
theorem position_eq_of_parent_eq {r s q : Nat} {a b holder : Cell ν} (ha : cells[r]? = some a)
    (hb : cells[s]? = some b) (hholder : cells[q]? = some holder) (haq : a.parent = some q) (hbq : b.parent = some q)
    (hnodup : (children holder.node).Nodup) (hab : a.node = b.node) : r = s := by
  rw [← Nat.zero_add q] at haq hbq
  rcases Nat.lt_trichotomy r s with hlt | heq | hlt
  · have hpair := h.children_sublist r s q a b holder hlt ha hb hholder haq hbq
    exact absurd (hab ▸ hnodup.sublist hpair) (by simp)
  · exact heq
  · have hpair := h.children_sublist s r q b a holder hlt hb ha hholder hbq haq
    exact absurd (hab ▸ hnodup.sublist hpair) (by simp)

/-- If every node is a child of one node at most, and once only, then every node occurs at one position. -/
theorem position_unique
    (hunique : ∀ {x y z : ν}, Reaches children root x → Reaches children root y → z ∈ children x → z ∈ children y →
      x = y)
    (hnodup : ∀ {x : ν}, Reaches children root x → (children x).Nodup)
    (hroot : ∀ {x : ν}, Reaches children root x → root ∉ children x) (r : Nat) :
    ∀ {s : Nat} {a b : Cell ν}, cells[r]? = some a → cells[s]? = some b → a.node = b.node → r = s := by
  induction r using Nat.strongRecOn with
  | ind r ih =>
    intro s a b ha hb hab
    rcases h.root_or_child ha with ⟨hparent, hnode⟩ | ⟨q, holder, hq, hparent, hholder, hnode⟩
    · rcases h.root_or_child hb with ⟨hparent', -⟩ | ⟨q', holder', -, -, hholder', hnode'⟩
      · -- Two roots would have to stand in a list of one.
        rcases Nat.lt_trichotomy r s with hlt | heq | hlt
        · exact absurd (h.roots_sublist r s a b hlt ha hb hparent hparent').length_le (by simp)
        · exact heq
        · exact absurd (h.roots_sublist s r b a hlt hb ha hparent' hparent).length_le (by simp)
      · rw [← hab, hnode] at hnode'
        exact absurd hnode' (hroot (h.reaches q' hholder'))
    · rcases h.root_or_child hb with ⟨-, hnode'⟩ | ⟨q', holder', -, hparent', hholder', hnode'⟩
      · rw [hab, hnode'] at hnode
        exact absurd hnode (hroot (h.reaches q hholder))
      · -- The holders are one node, so they stand in one place, and a node is there once among its children.
        have hholders : holder.node = holder'.node :=
          hunique (h.reaches q hholder) (h.reaches q' hholder') hnode (hab ▸ hnode')
        obtain rfl := ih q hq hholder hholder' hholders
        exact h.position_eq_of_parent_eq ha hb hholder hparent hparent' (hnodup (h.reaches q hholder)) hab

/-- Occurrences below different children of one occurrence stand in the order of those children. -/
theorem parent_lt_of_lt {r s q q' t : Nat} {a b c c' : Cell ν} (hrs : r < s) (ha : cells[r]? = some a)
    (hb : cells[s]? = some b) (hc : cells[q]? = some c) (haq : a.parent = some q) (hbq : b.parent = some q')
    (hct : c.parent = some t) (hc' : cells[q']? = some c') (hct' : c'.parent = some t) (hne : q ≠ q') : q < q' := by
  by_contra hle
  have hqr : q < r := by
    rcases h.root_or_child ha with ⟨hparent, -⟩ | ⟨u, -, hu, hparent, -⟩
    · exact nomatch hparent.symm.trans haq
    · obtain rfl := Option.some.inj (hparent.symm.trans haq)
      exact hu
  have htq' : t < q' := by
    rcases h.root_or_child hc' with ⟨hparent, -⟩ | ⟨u, -, hu, hparent, -⟩
    · exact nomatch hparent.symm.trans hct'
    · obtain rfl := Option.some.inj (hparent.symm.trans hct')
      exact hu
  -- `q` stands between `q'` and its child `s`, so its parent cannot stand above `q'`.
  obtain ⟨u, hu, hparent⟩ := h.nested s q' q b c (by omega) (by omega) hb hc (by rw [Nat.zero_add]; exact hbq)
  rw [Nat.zero_add] at hparent
  obtain rfl := Option.some.inj (hparent.symm.trans hct)
  omega

end Layout

/-! ### Seats -/

/-- Where a candidate at level two stands: its node, the node and the position of its parent, and the node of the
ancestor. -/
structure Seat (cells : Array (Cell ν)) (c : Candidate) where
  /-- The candidate itself. -/
  cell : Cell ν
  /-- The position of the parent. -/
  position : Nat
  /-- The parent. -/
  parent : Cell ν
  /-- The ancestor. -/
  ancestor : Cell ν
  cell_eq : cells[c.index]? = some cell
  digest_eq : cell.digest = c.digest
  cell_parent : cell.parent = some position
  parent_eq : cells[position]? = some parent
  parent_parent : parent.parent = some c.ancestor
  ancestor_eq : cells[c.ancestor]? = some ancestor

namespace Seat

variable {cells : Array (Cell ν)} {c : Candidate} (h : Layout children 0 none [root] cells.toList) (S : Seat cells c)

include h

private theorem mem_children_of_parent {r q : Nat} {cell parent : Cell ν} (hcell : cells[r]? = some cell)
    (hparent : cell.parent = some q) (hq : cells[q]? = some parent) : cell.node ∈ children parent.node := by
  rw [← Array.getElem?_toList] at hcell hq
  rcases h.root_or_child hcell with ⟨hnone, -⟩ | ⟨q', holder, -, hparent', hq', hmem⟩
  · exact nomatch hnone.symm.trans hparent
  · obtain rfl := Option.some.inj (hparent.symm.trans hparent')
    rwa [Option.some.inj (hq.symm.trans hq')]

theorem cell_mem_children : S.cell.node ∈ children S.parent.node :=
  mem_children_of_parent h S.cell_eq S.cell_parent S.parent_eq

theorem parent_mem_children : S.parent.node ∈ children S.ancestor.node :=
  mem_children_of_parent h S.parent_eq S.parent_parent S.ancestor_eq

theorem reaches_ancestor : Reaches children root S.ancestor.node :=
  h.reaches c.ancestor (by rw [Array.getElem?_toList, S.ancestor_eq])

theorem reaches_parent : Reaches children root S.parent.node :=
  (S.reaches_ancestor h).tail (S.parent_mem_children h)

end Seat

/-- Seats at one position are under one parent. -/
theorem Seat.parent_eq_of_index_eq {cells : Array (Cell ν)} {c d : Candidate} (S : Seat cells c) (T : Seat cells d)
    (hindex : c.index = d.index) : S.parent = T.parent := by
  have hcell : S.cell = T.cell := Option.some.inj (S.cell_eq.symm.trans (hindex ▸ T.cell_eq))
  have hposition : S.position = T.position :=
    Option.some.inj (S.cell_parent.symm.trans (hcell ▸ T.cell_parent))
  exact Option.some.inj (S.parent_eq.symm.trans (hposition ▸ T.parent_eq))

theorem nonempty_seat {cells : Array (Cell ν)} (h : Layout children 0 none [root] cells.toList) {c : Candidate}
    (hc : c ∈ candidates cells 2) : Nonempty (Seat cells c) := by
  obtain ⟨cell, hcell, hdigest, hclimb⟩ := mem_candidates.mp hc
  have hget : ∀ {i : Nat} {x : Cell ν}, cells[i]? = some x → (cells.map Cell.parent)[i]? = some x.parent := by
    intro i x hx
    rw [Array.getElem?_map, hx, Option.map_some]
  have hcellList : cells.toList[c.index]? = some cell := by rwa [Array.getElem?_toList]
  rw [climb, hget hcell, Option.join_some] at hclimb
  rcases h.root_or_child hcellList with ⟨hparent, -⟩ | ⟨q, parent, -, hparent, hq, -⟩
  · rw [hparent] at hclimb
    cases hclimb
  · rw [Array.getElem?_toList] at hq
    rw [hparent, Option.bind_some, climb, hget hq, Option.join_some] at hclimb
    have hqList : cells.toList[q]? = some parent := by rwa [Array.getElem?_toList]
    rcases h.root_or_child hqList with ⟨hparent', -⟩ | ⟨t, ancestor, -, hparent', ht, -⟩
    · rw [hparent'] at hclimb
      cases hclimb
    · rw [Array.getElem?_toList] at ht
      rw [hparent', Option.bind_some, climb] at hclimb
      obtain rfl := Option.some.inj hclimb
      exact ⟨⟨cell, q, parent, ancestor, hcell, hdigest, hparent, hq, hparent', ht⟩⟩

/-! ### Who is asked to hold what -/

namespace Linked

variable {σ : Type} (L : Linked σ ν) (g : σ) (root : ν)

/-- The redirections below a node at level two are those of its candidates, in order. -/
theorem plan_eq_redirectionsFrom :
    L.plan g root 2 = redirectionsFrom (L.occurrences g root) (candidates (L.occurrences g root) 2) []
      (candidates (L.occurrences g root) 2) := by
  have hlayout := L.layout_occurrences g root
  refine redirections_sweep (pairwise_candidates _ _) (nodup_index_candidates _ _) fun c hc => ?_
  obtain ⟨C⟩ := nonempty_seat hlayout hc
  exact ⟨C.cell, C.position, C.cell_eq, C.cell_parent, (Array.getElem?_eq_some_iff.mp C.parent_eq).1⟩

variable {L g root}

/-- Who is asked is a child of a node that the root leads to, and is asked to hold a node that is found two steps below
such a node. -/
theorem reaches_of_mem_plan {r : Redirection ν} (hr : r ∈ L.plan g root 2) :
    (∃ x, Reaches (L.children g) root x ∧ r.holder ∈ L.children g x) ∧
      ∃ x y, Reaches (L.children g) root x ∧ y ∈ L.children g x ∧ r.source ∈ L.children g y := by
  have hlayout := L.layout_occurrences g root
  rw [plan_eq_redirectionsFrom] at hr
  obtain ⟨before, c, after, hsplit, hredirection⟩ := mem_redirectionsFrom_iff.mp hr
  set cells := L.occurrences g root
  set cs := candidates cells 2
  have hc : c ∈ cs := by simp [hsplit]
  have hseat : ∀ {d n}, d ∈ cs → nodeAt cells d.index = some n →
      ∃ x y, Reaches (L.children g) root x ∧ y ∈ L.children g x ∧ n ∈ L.children g y := by
    intro d n hd hn
    obtain ⟨D⟩ := nonempty_seat hlayout hd
    rw [nodeAt, D.cell_eq, Option.map_some] at hn
    rw [← Option.some.inj hn]
    exact ⟨_, _, D.reaches_ancestor hlayout, D.parent_mem_children hlayout, D.cell_mem_children hlayout⟩
  obtain ⟨C⟩ := nonempty_seat hlayout hc
  rw [redirection?] at hredirection
  split_ifs at hredirection
  rw [C.cell_eq, Option.bind_some, C.cell_parent] at hredirection
  simp only [Option.bind_eq_bind, Option.bind_some, Option.bind_eq_some_iff, Option.pure_def] at hredirection
  obtain ⟨holder, hholder, source, hsource, destination, -, hr⟩ := hredirection
  obtain rfl := Option.some.inj hr
  refine ⟨?_, hseat (leader_mem hc) hsource⟩
  -- What stands at the place of the parent is the parent or the node of another candidate.
  rw [standing] at hholder
  split at hholder
  · rename_i d hfind
    have hd : d ∈ cs := by
      rw [hsplit]
      exact List.mem_append_left _ (by simpa using List.mem_of_find?_eq_some hfind)
    obtain ⟨x, y, hx, hy, hholder⟩ := hseat (leader_mem hd) hholder
    exact ⟨y, hx.tail hy, hholder⟩
  · rw [nodeAt, C.parent_eq, Option.map_some] at hholder
    rw [← Option.some.inj hholder]
    exact ⟨_, C.reaches_ancestor hlayout, C.parent_mem_children hlayout⟩

end Linked

end Schemata.Sharing
