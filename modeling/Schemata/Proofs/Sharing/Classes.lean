import Schemata.Proofs.Sharing.Seats

/-!
# Classes of nodes

Digests may take any two nodes for equal, but nodes are only shared if they have an ancestor in common two steps up. So
what all nodes two steps below a node agree on, they go on agreeing on: if nodes fall into classes such that the children
of the children of a node are of one class, then a redirection asks a node of the class of a parent to hold a node of the
class of its child (`Linked.exists_link_of_mem_plan`). What links say of classes is then kept by sharing
(`Linked.respects_share`), whatever the digests are.
-/

namespace Schemata.Sharing.Linked

variable {σ ν γ : Type} {L : Linked σ ν} {g : σ} {root : ν} {κ : ν → γ} {r : Redirection ν}

/-- Nodes two steps below a node are of one class. -/
def Cousinly (L : Linked σ ν) (g : σ) (root : ν) (κ : ν → γ) : Prop :=
  ∀ {x y y' z z' : ν}, Reaches (L.children g) root x → y ∈ L.children g x → y' ∈ L.children g x →
    z ∈ L.children g y → z' ∈ L.children g y' → κ z = κ z'

section Classes

variable (hκ : L.Cousinly g root κ)

include hκ

/-- The leader of a candidate is of its class. -/
theorem class_leader {c : Candidate} {n m : ν} (hc : c ∈ candidates (L.occurrences g root) 2)
    (hn : nodeAt (L.occurrences g root) (leader (candidates (L.occurrences g root) 2) c).index = some n)
    (hm : nodeAt (L.occurrences g root) c.index = some m) : κ n = κ m := by
  have hlayout := L.layout_occurrences g root
  by_cases hleader : leader (candidates (L.occurrences g root) 2) c = c
  · rw [hleader] at hn
    rw [Option.some.inj (hn.symm.trans hm)]
  obtain ⟨hmem, hgroup⟩ := mem_of_leader_ne hleader
  obtain ⟨C⟩ := nonempty_seat hlayout hc
  obtain ⟨D⟩ := nonempty_seat hlayout hmem
  have hsame : D.ancestor = C.ancestor := by
    have hancestor := D.ancestor_eq
    rw [(Candidate.sameGroup_iff.mp hgroup).2, C.ancestor_eq] at hancestor
    exact (Option.some.inj hancestor).symm
  rw [nodeAt, D.cell_eq, Option.map_some] at hn
  rw [nodeAt, C.cell_eq, Option.map_some] at hm
  rw [← Option.some.inj hn, ← Option.some.inj hm]
  exact hκ (C.reaches_ancestor hlayout) (hsame ▸ D.parent_mem_children hlayout) (C.parent_mem_children hlayout)
    (D.cell_mem_children hlayout) (C.cell_mem_children hlayout)

/-- A redirection asks a node of the class of a parent to hold a node of the class of its child. -/
theorem exists_link_of_mem_plan (hr : r ∈ L.plan g root 2) :
    ∃ x y, Reaches (L.children g) root x ∧ y ∈ L.children g x ∧ κ r.holder = κ x ∧ κ r.source = κ y := by
  have hlayout := L.layout_occurrences g root
  rw [plan_eq_redirectionsFrom] at hr
  obtain ⟨before, c, after, hsplit, hredirection⟩ := mem_redirectionsFrom_iff.mp hr
  have hc : c ∈ candidates (L.occurrences g root) 2 := by rw [hsplit]; simp
  obtain ⟨C⟩ := nonempty_seat hlayout hc
  rw [redirection?] at hredirection
  split_ifs at hredirection
  rw [C.cell_eq, Option.bind_some, C.cell_parent] at hredirection
  simp only [Option.bind_eq_bind, Option.bind_some, Option.bind_eq_some_iff, Option.pure_def] at hredirection
  obtain ⟨holder, hholder, source, hsource, destination, -, hr⟩ := hredirection
  obtain rfl := Option.some.inj hr
  have hcell : nodeAt (L.occurrences g root) c.index = some C.cell.node := by rw [nodeAt, C.cell_eq, Option.map_some]
  have hparent : nodeAt (L.occurrences g root) C.position = some C.parent.node := by
    rw [nodeAt, C.parent_eq, Option.map_some]
  refine ⟨C.parent.node, C.cell.node, C.reaches_parent hlayout, C.cell_mem_children hlayout, ?_,
    class_leader hκ hc hsource hcell⟩
  -- What stands at the place of the parent is the parent or the leader of its group.
  rw [standing] at hholder
  split at hholder
  · rename_i d hfind
    have hd : d ∈ candidates (L.occurrences g root) 2 := by
      rw [hsplit]
      exact List.mem_append_left _ (by simpa using List.mem_of_find?_eq_some hfind)
    have hindex : d.index = C.position := by simpa using List.find?_some hfind
    exact class_leader hκ hd hholder (hindex ▸ hparent)
  · rw [Option.some.inj (hholder.symm.trans hparent)]

/-- **Sharing respects classes.** What every link below the root says of the classes of its ends, links say after sharing
as well, if a redirection gives no node another child, except for the node that is asked, which may get the source. -/
theorem respects_share {ρ : γ → γ → Prop} {S : Set ν}
    (hredirect : ∀ {h : σ} {r : Redirection ν} {x y : ν}, y ∈ L.children (L.redirect h r) x →
      y ∈ L.children h x ∨ (x = r.holder ∧ y = r.source))
    (hroot : root ∈ S) (hmem : ∀ {x y : ν}, x ∈ S → y ∈ L.children g x → y ∈ S)
    (hlinks : ∀ {x y : ν}, x ∈ S → y ∈ L.children g x → ρ (κ x) (κ y)) {x y : ν} (hx : x ∈ S)
    (hy : y ∈ L.children (L.share g root 2) x) : ρ (κ x) (κ y) := by
  have hbelow : ∀ {x}, Reaches (L.children g) root x → x ∈ S := by
    intro x hx
    induction hx with
    | refl => exact hroot
    | tail _ hlink ih => exact hmem ih hlink
  suffices hall : ∀ {x y}, x ∈ S → y ∈ L.children (L.share g root 2) x → ρ (κ x) (κ y) from hall hx hy
  refine List.foldlRecOn (motive := fun h => ∀ {x y}, x ∈ S → y ∈ L.children h x → ρ (κ x) (κ y)) _ _ hlinks
    fun h hh r hr x y hx hy => ?_
  rcases hredirect hy with hy | ⟨rfl, rfl⟩
  · exact hh hx hy
  · obtain ⟨x, y, hx, hy, hholder, hsource⟩ := exists_link_of_mem_plan hκ hr
    rw [hholder, hsource]
    exact hlinks (hbelow hx) hy

end Classes

end Schemata.Sharing.Linked
