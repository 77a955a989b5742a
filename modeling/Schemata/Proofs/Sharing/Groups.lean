import Mathlib.Data.Prod.Lex
import Schemata.Proofs.Acyclicity

/-!
# A sweep and the groups it merges

A sweep finds ancestors by jumps, sorts what has one, compares neighbours and changes nodes on its way. What it comes
to can be said without any of this. Occurrences with equal digests and one ancestor `level` steps up are a group
(`Grouped`), and every group has a first occurrence (`first`). Each occurrence that is not the first of its group is
redirected once, to the node of the first, by digest, ancestor and position (`Precedes`). Who is asked is the node that
the parent stands for at that moment (`Redirects`).

* `redirects_sweep`: the redirections of a sweep are these;
* `nodes_sweep_eq_first`: at the end every occurrence stands for the node of the first of its group.
-/

namespace Schemata.Sharing

variable {ν : Type}

/-! ### Groups -/

section Groups

variable (cells : Array (Cell ν)) (level : Nat)

/-- The ancestor of an occurrence: where `level` steps to the parent lead, if there are as many. -/
def above (i : Nat) : Option Nat :=
  climb (cells.map Cell.parent) level i

/-- Two occurrences with equal digests and the same ancestor. -/
def Grouped (i j : Nat) : Prop :=
  (above cells level i).isSome ∧ above cells level i = above cells level j ∧
    cells[i]?.map Cell.digest = cells[j]?.map Cell.digest

instance (i j : Nat) : Decidable (Grouped cells level i j) :=
  inferInstanceAs (Decidable (_ ∧ _ ∧ _))

/-- The lowest occurrence of the group of an occurrence. One without an ancestor is on its own. -/
def first (j : Nat) : Nat :=
  ((List.range cells.size).find? fun i => Grouped cells level i j).getD j

/-- By the value and the length of the digest, then by ancestor, then by position. -/
def Precedes (i j : Nat) : Prop :=
  ∃ a b m n, cells[i]? = some a ∧ cells[j]? = some b ∧ above cells level i = some m ∧ above cells level j = some n ∧
    toLex (a.digest.value.toNat, toLex (a.digest.length, toLex (m, i))) <
      toLex (b.digest.value.toNat, toLex (b.digest.length, toLex (n, j)))

/-- The node that an occurrence stands for once those in `done` stand for the first of their groups. -/
def nodeAfter (done : List Nat) (i : Nat) : Option ν :=
  nodeAt cells (if i ∈ done then first cells level i else i)

/-- The redirections of the occurrences that are left once those in `done` are redirected, one for each of them and in
their order: the node that the parent stands for by then is asked to hold the node of the first of the group in place of
the node of the occurrence. -/
inductive Redirects : (done todo : List Nat) → List (Redirection ν) → Prop
  | nil (done : List Nat) : Redirects done [] []
  | cons {done todo : List Nat} {rs : List (Redirection ν)} {j parent : Nat} {r : Redirection ν}
      (parent_eq : cells[j]?.bind Cell.parent = some parent)
      (holder_eq : nodeAfter cells level done parent = some r.holder)
      (source_eq : nodeAt cells (first cells level j) = some r.source)
      (destination_eq : nodeAt cells j = some r.destination)
      (rest : Redirects (done ++ [j]) todo rs) : Redirects done (j :: todo) (r :: rs)

end Groups

variable {cells : Array (Cell ν)} {level : Nat}

theorem Redirects.eq_nil {done : List Nat} {rs : List (Redirection ν)} (h : Redirects cells level done [] rs) :
    rs = [] := by
  cases h
  rfl

/-! ### Firsts and leaders -/

/-- An occurrence of the group of another is a candidate of its group. -/
private theorem exists_candidate_of_grouped {i j : Nat} (hi : i < cells.size) (h : Grouped cells level i j) :
    ∃ c ∈ candidates cells level, ∃ d ∈ candidates cells level, c.index = i ∧ d.index = j ∧ c.sameGroup d = true := by
  obtain ⟨hsome, habove, hdigest⟩ := h
  obtain ⟨ancestor, hancestor⟩ := Option.isSome_iff_exists.mp hsome
  obtain ⟨a, ha⟩ : ∃ a, cells[i]? = some a := ⟨cells[i], Array.getElem?_eq_getElem hi⟩
  rw [ha, Option.map_some, eq_comm, Option.map_eq_some_iff] at hdigest
  obtain ⟨b, hb, hdigest⟩ := hdigest
  refine ⟨⟨a.digest, ancestor, i⟩, mem_candidates.mpr ⟨a, ha, rfl, hancestor⟩, ⟨b.digest, ancestor, j⟩,
    mem_candidates.mpr ⟨b, hb, rfl, habove.symm.trans hancestor⟩, rfl, rfl, ?_⟩
  exact Candidate.sameGroup_iff.mpr ⟨hdigest.symm, rfl⟩

private theorem grouped_of_sameGroup {c d : Candidate} (hc : c ∈ candidates cells level)
    (hd : d ∈ candidates cells level) (h : c.sameGroup d = true) : Grouped cells level c.index d.index := by
  obtain ⟨a, ha, hadigest, haabove⟩ := mem_candidates.mp hc
  obtain ⟨b, hb, hbdigest, hbabove⟩ := mem_candidates.mp hd
  obtain ⟨hdigest, hancestor⟩ := Candidate.sameGroup_iff.mp h
  refine ⟨Option.isSome_iff_exists.mpr ⟨_, haabove⟩, ?_, ?_⟩
  · rw [above, above, haabove, hbabove, hancestor]
  · rw [ha, hb, Option.map_some, Option.map_some, hadigest, hbdigest, hdigest]

private theorem eq_of_index_eq {c d : Candidate} (hc : c ∈ candidates cells level) (hd : d ∈ candidates cells level)
    (h : c.index = d.index) : c = d :=
  List.inj_on_of_nodup_map (nodup_index_candidates cells level) hc hd h

/-- The first of the group of a candidate is its leader. -/
theorem first_index {c : Candidate} (hc : c ∈ candidates cells level) :
    first cells level c.index = (leader (candidates cells level) c).index := by
  have hleader := leader_mem hc
  have hgroup : (leader (candidates cells level) c).sameGroup c = true := by
    by_cases hself : leader (candidates cells level) c = c
    · rw [hself]
      exact Candidate.sameGroup_iff.mpr ⟨rfl, rfl⟩
    · exact (mem_of_leader_ne hself).2
  have hfind : (List.range cells.size).find? (fun i => decide (Grouped cells level i c.index)) =
      some (leader (candidates cells level) c).index := by
    obtain ⟨cell, hcell, -⟩ := mem_candidates.mp hleader
    refine List.find?_range_eq_some.mpr ⟨decide_eq_true (grouped_of_sameGroup hleader hc hgroup),
      List.mem_range.mpr (Array.getElem?_eq_some_iff.mp hcell).1, fun j hj => ?_⟩
    rw [Bool.not_eq_true', decide_eq_false_iff_not]
    intro hgrouped
    have hlt : j < cells.size := hj.trans (Array.getElem?_eq_some_iff.mp hcell).1
    obtain ⟨d, hd, c', hc', rfl, hindex, hsame⟩ := exists_candidate_of_grouped hlt hgrouped
    obtain rfl := eq_of_index_eq hc' hc hindex
    -- A lower member of the group would stand before its own leader.
    rw [← leader_congr hd hsame] at hj
    by_cases hself : leader (candidates cells level) d = d
    · rw [hself] at hj
      exact Nat.lt_irrefl _ hj
    · exact Nat.lt_asymm hj (leader_index_lt (pairwise_candidates _ _) (nodup_index_candidates _ _) hd hself)
  rw [first, hfind, Option.getD_some]

theorem first_lt (level : Nat) {i : Nat} (hi : i < cells.size) : first cells level i < cells.size := by
  rw [first]
  cases hfind : (List.range cells.size).find? fun j => Grouped cells level j i with
  | none => exact hi
  | some j => exact List.mem_range.mp (List.mem_of_find?_eq_some hfind)

theorem exists_nodeAt {i : Nat} (hi : i < cells.size) : ∃ n, nodeAt cells i = some n :=
  ⟨cells[i].node, by rw [nodeAt, Array.getElem?_eq_getElem hi, Option.map_some]⟩

theorem exists_nodeAfter (level : Nat) (done : List Nat) {i : Nat} (hi : i < cells.size) :
    ∃ n, nodeAfter cells level done i = some n := by
  rw [nodeAfter]
  split_ifs
  · exact exists_nodeAt (first_lt level hi)
  · exact exists_nodeAt hi

theorem first_eq_self {i : Nat} (h : ∀ c ∈ candidates cells level, c.index ≠ i) : first cells level i = i := by
  have hfind : (List.range cells.size).find? (fun j => decide (Grouped cells level j i)) = none := by
    refine List.find?_eq_none.mpr fun j hj hgrouped => ?_
    obtain ⟨-, -, d, hd, -, hindex, -⟩ := exists_candidate_of_grouped (List.mem_range.mp hj) (of_decide_eq_true hgrouped)
    exact h d hd hindex
  rw [first, hfind, Option.getD_none]

/-! ### The occurrences that a sweep redirects -/

/-- The positions of those candidates that lead no group. -/
def trailing (cs xs : List Candidate) : List Nat :=
  (xs.filter fun c => leader cs c ≠ c).map Candidate.index

section Trailing

variable {cs xs : List Candidate} {c : Candidate}

theorem mem_trailing {j : Nat} : j ∈ trailing cs xs ↔ ∃ c ∈ xs, leader cs c ≠ c ∧ c.index = j := by
  simp [trailing, and_assoc]

theorem trailing_nil : trailing cs [] = [] :=
  rfl

theorem trailing_cons_of_leader (h : leader cs c = c) : trailing cs (c :: xs) = trailing cs xs := by
  simp [trailing, h]

theorem trailing_cons_of_ne (h : leader cs c ≠ c) : trailing cs (c :: xs) = c.index :: trailing cs xs := by
  simp [trailing, h]

theorem trailing_append (xs ys : List Candidate) : trailing cs (xs ++ ys) = trailing cs xs ++ trailing cs ys := by
  simp [trailing]

end Trailing

theorem mem_trailing_iff_first_ne {j : Nat} :
    j ∈ trailing (candidates cells level) (candidates cells level) ↔ first cells level j ≠ j := by
  rw [mem_trailing]
  constructor
  · rintro ⟨c, hc, hne, rfl⟩ heq
    rw [first_index hc] at heq
    exact hne (eq_of_index_eq (leader_mem hc) hc heq)
  · intro hne
    obtain ⟨c, hc, rfl⟩ : ∃ c ∈ candidates cells level, c.index = j := by
      by_contra hnone
      push Not at hnone
      exact hne (first_eq_self hnone)
    rw [first_index hc] at hne
    exact ⟨c, hc, fun heq => hne (congrArg Candidate.index heq), rfl⟩

/-- What is redirected has an ancestor and is not the first of its group. -/
theorem mem_trailing_candidates {j : Nat} :
    j ∈ trailing (candidates cells level) (candidates cells level) ↔
      j < cells.size ∧ (above cells level j).isSome ∧ first cells level j ≠ j := by
  refine ⟨fun hj => ?_, fun h => mem_trailing_iff_first_ne.mpr h.2.2⟩
  obtain ⟨c, hc, -, rfl⟩ := mem_trailing.mp hj
  obtain ⟨cell, hcell, -, hclimb⟩ := mem_candidates.mp hc
  exact ⟨(Array.getElem?_eq_some_iff.mp hcell).1, Option.isSome_iff_exists.mpr ⟨_, hclimb⟩,
    mem_trailing_iff_first_ne.mp hj⟩

theorem first_of_above_eq_none {i : Nat} (h : above cells level i = none) : first cells level i = i := by
  refine first_eq_self fun c hc hindex => ?_
  obtain ⟨_, -, -, hclimb⟩ := mem_candidates.mp hc
  rw [hindex] at hclimb
  exact nomatch h.symm.trans hclimb

/-- Candidates in order are in the lexicographic order of their parts. -/
theorem Candidate.Le.toLex_le {a b : Candidate} (h : a.Le b) :
    toLex (a.digest.value.toNat, toLex (a.digest.length, toLex (a.ancestor, a.index))) ≤
      toLex (b.digest.value.toNat, toLex (b.digest.length, toLex (b.ancestor, b.index))) := by
  have hdigest : compare a.digest b.digest =
      (compare a.digest.value b.digest.value).then (compare a.digest.length b.digest.length) := rfl
  rw [Le, Candidate.compare, hdigest] at h
  simp only [Ordering.isLE_then_iff_or, Ordering.then_eq_lt, Ordering.then_eq_eq, Std.compare_eq_lt,
    Std.compare_eq_iff_eq, Nat.isLE_compare, UInt32.lt_iff_toNat_lt, ← UInt32.toNat_inj] at h
  simp only [Prod.Lex.toLex_le_toLex]
  tauto

/-- Occurrences are redirected in order. -/
theorem pairwise_trailing :
    (trailing (candidates cells level) (candidates cells level)).Pairwise (Precedes cells level) := by
  rw [trailing, List.pairwise_map]
  have hne : (candidates cells level).Pairwise fun c d => c.index ≠ d.index :=
    List.pairwise_map.mp (nodup_index_candidates cells level)
  refine List.Pairwise.imp_of_mem (fun {c d} hc hd hcd => ?_)
    (((pairwise_candidates cells level).and hne).sublist List.filter_sublist)
  obtain ⟨a, ha, hadigest, haabove⟩ := mem_candidates.mp (List.mem_of_mem_filter hc)
  obtain ⟨b, hb, hbdigest, hbabove⟩ := mem_candidates.mp (List.mem_of_mem_filter hd)
  refine ⟨a, b, c.ancestor, d.ancestor, ha, hb, haabove, hbabove, ?_⟩
  rw [hadigest, hbdigest]
  refine lt_of_le_of_ne hcd.1.toLex_le fun heq => hcd.2 ?_
  simp only [EmbeddingLike.apply_eq_iff_eq, Prod.mk.injEq] at heq
  exact heq.2.2.2

/-! ### The sweep -/

section Sweep

variable {done todo : List Candidate}

theorem standing_eq_nodeAfter (hcs : candidates cells level = done ++ todo) (i : Nat) :
    standing cells (candidates cells level) done i =
      nodeAfter cells level (trailing (candidates cells level) done) i := by
  have hdone : ∀ {c}, c ∈ done → c ∈ candidates cells level := fun hc => hcs ▸ List.mem_append_left _ hc
  rw [nodeAfter]
  by_cases htrailing : i ∈ trailing (candidates cells level) done
  · obtain ⟨c, hc, -, rfl⟩ := mem_trailing.mp htrailing
    have hfind : ∃ d, done.find? (fun d => decide (d.index = c.index)) = some d :=
      Option.isSome_iff_exists.mp (List.find?_isSome.mpr ⟨c, hc, by simp⟩)
    obtain ⟨d, hd⟩ := hfind
    have hindex : d.index = c.index := by simpa using List.find?_some hd
    obtain rfl := eq_of_index_eq (hdone (List.mem_of_find?_eq_some hd)) (hdone hc) hindex
    rw [if_pos htrailing, standing, hd, first_index (hdone hc)]
  · rw [if_neg htrailing]
    refine standing_of_forall_leader cells fun c hc hindex => ?_
    by_contra hne
    exact htrailing (mem_trailing.mpr ⟨c, hc, hne, hindex⟩)

/-- The redirections of the candidates in order are those of the occurrences that are not the first of their groups. -/
theorem redirects_redirectionsFrom
    (hcells : ∀ c ∈ candidates cells level, ∃ cell parent, cells[c.index]? = some cell ∧ cell.parent = some parent ∧
      parent < cells.size) :
    ∀ (todo done : List Candidate), candidates cells level = done ++ todo →
      Redirects cells level (trailing (candidates cells level) done) (trailing (candidates cells level) todo)
        (redirectionsFrom cells (candidates cells level) done todo) := by
  intro todo
  induction todo with
  | nil => exact fun done _ => .nil _
  | cons c todo ih =>
    intro done hcs
    have hrest := ih (done ++ [c]) (by rw [hcs, List.append_assoc, List.singleton_append])
    rw [trailing_append] at hrest
    by_cases hleader : leader (candidates cells level) c = c
    · rw [trailing_cons_of_leader hleader, redirectionsFrom, redirection?, if_pos hleader]
      rwa [trailing_cons_of_leader hleader, trailing_nil, List.append_nil] at hrest
    · have hc : c ∈ candidates cells level := by simp [hcs]
      obtain ⟨cell, parent, hcell, hparent, hlt⟩ := hcells c hc
      have hindex : c.index < cells.size := (Array.getElem?_eq_some_iff.mp hcell).1
      obtain ⟨source, hsource⟩ := exists_nodeAt (first_lt level hindex)
      rw [first_index hc] at hsource
      obtain ⟨holder, hholder⟩ := exists_nodeAfter level (trailing (candidates cells level) done) hlt
      rw [← standing_eq_nodeAfter hcs] at hholder
      have hdestination : nodeAt cells c.index = some cell.node := by rw [nodeAt, hcell, Option.map_some]
      have hredirection : redirection? cells (candidates cells level) done c = some ⟨holder, source, cell.node⟩ := by
        simp [redirection?, hleader, hcell, hparent, hsource, hdestination, hholder]
      rw [trailing_cons_of_ne hleader, redirectionsFrom, hredirection]
      rw [trailing_cons_of_ne hleader, trailing_nil] at hrest
      refine .cons (by rw [hcell, Option.bind_some, hparent]) ?_ (by rw [first_index hc, hsource]) hdestination hrest
      rw [← standing_eq_nodeAfter hcs, hholder]

/-- Where no two neighbours belong to one group, a sweep does nothing. -/
theorem sweep_eq_nil {cs : List Candidate} (nodes : Array ν)
    (h : cs.Pairwise fun c d => c.sameGroup d = false) : sweep cells nodes cs = ⟨[], nodes⟩ := by
  induction cs with
  | nil => simp [sweep]
  | cons c cs ih =>
    cases cs with
    | nil => simp [sweep]
    | cons d cs =>
      have hcd : c.sameGroup d = false := List.rel_of_pairwise_cons h List.mem_cons_self
      rw [sweep, hcd]
      exact ih h.of_cons

private theorem index_eq_ancestor {c : Candidate} (hc : c ∈ candidates cells 0) : c.index = c.ancestor := by
  obtain ⟨_, -, -, hclimb⟩ := mem_candidates.mp hc
  exact Option.some.inj hclimb

/-- At level zero no two occurrences have one ancestor. -/
theorem pairwise_candidates_zero (cells : Array (Cell ν)) :
    (candidates cells 0).Pairwise fun c d => c.sameGroup d = false := by
  refine (List.pairwise_map.mp (nodup_index_candidates cells 0)).imp_of_mem fun {c d} hc hd hne => ?_
  rw [Bool.eq_false_iff]
  intro hgroup
  rw [index_eq_ancestor hc, index_eq_ancestor hd] at hne
  exact hne (Candidate.sameGroup_iff.mp hgroup).2

theorem trailing_candidates_zero (cells : Array (Cell ν)) :
    trailing (candidates cells 0) (candidates cells 0) = [] := by
  refine List.eq_nil_iff_forall_not_mem.mpr fun j hj => ?_
  obtain ⟨c, hc, hne, -⟩ := mem_trailing.mp hj
  obtain ⟨hmem, hgroup⟩ := mem_of_leader_ne hne
  refine hne (eq_of_index_eq hmem hc ?_)
  rw [index_eq_ancestor hmem, index_eq_ancestor hc]
  exact (Candidate.sameGroup_iff.mp hgroup).2

/-- Above level zero only what has a parent has an ancestor. -/
theorem exists_parent_of_mem_candidates {children : ν → List ν} {root : ν}
    (h : Layout children 0 none [root] cells.toList) (hlevel : 0 < level) {c : Candidate}
    (hc : c ∈ candidates cells level) :
    ∃ cell parent, cells[c.index]? = some cell ∧ cell.parent = some parent ∧ parent < cells.size := by
  obtain ⟨cell, hcell, -, hclimb⟩ := mem_candidates.mp hc
  obtain ⟨n, rfl⟩ : ∃ n, level = n + 1 := ⟨level - 1, by omega⟩
  rw [climb, Array.getElem?_map, hcell, Option.map_some, Option.join_some] at hclimb
  rcases h.root_or_child (by rwa [Array.getElem?_toList]) with ⟨hnone, -⟩ | ⟨q, -, hq, hparent, -⟩
  · rw [hnone] at hclimb
    cases hclimb
  · exact ⟨cell, q, hcell, hparent, hq.trans (Array.getElem?_eq_some_iff.mp hcell).1⟩

variable {children : ν → List ν} {root : ν} (h : Layout children 0 none [root] cells.toList) (level : Nat)

include h

/-- The redirections of a sweep. -/
theorem redirects_sweep :
    Redirects cells level [] (trailing (candidates cells level) (candidates cells level))
      (sweep cells (cells.map Cell.node) (candidates cells level)).redirections := by
  rcases Nat.eq_zero_or_pos level with rfl | hlevel
  · rw [sweep_eq_nil _ (pairwise_candidates_zero cells), trailing_candidates_zero]
    exact .nil []
  · have hcells := fun c hc => exists_parent_of_mem_candidates (c := c) h hlevel hc
    rw [redirections_sweep (pairwise_candidates cells level) (nodup_index_candidates cells level) hcells]
    exact redirects_redirectionsFrom hcells _ [] rfl

/-- At the end every occurrence stands for the node of the first of its group. -/
theorem nodes_sweep_eq_first (i : Nat) :
    (sweep cells (cells.map Cell.node) (candidates cells level)).nodes[i]? = nodeAt cells (first cells level i) := by
  have hfirst : i ∉ trailing (candidates cells level) (candidates cells level) → first cells level i = i := by
    rw [mem_trailing_iff_first_ne]
    exact not_not.mp
  rcases Nat.eq_zero_or_pos level with rfl | hlevel
  · rw [sweep_eq_nil _ (pairwise_candidates_zero cells), hfirst (by simp [trailing_candidates_zero]), nodeAt,
      Array.getElem?_map]
  · rw [getElem?_nodes_sweep (pairwise_candidates cells level) (nodup_index_candidates cells level) fun c hc =>
        exists_parent_of_mem_candidates h hlevel hc, standing_eq_nodeAfter (List.append_nil _).symm, nodeAfter]
    split_ifs with htrailing
    · rfl
    · rw [hfirst htrailing]

end Sweep

namespace Linked

variable {σ : Type} {L : Linked σ ν} {g : σ} {root : ν}

/-- **A sweep merges groups**, at every level. In a finite graph without cycles nothing of the tree below a node is cut
off. Of its occurrences those are redirected that have an ancestor and are not the first of their group, once and in
order, and in the end every occurrence stands for the node of the first of its group. At level zero nothing is
redirected. -/
theorem sweep_merges_groups {S : Set ν} (hS : L.Enclosed g S) (hroot : root ∈ S)
    (hacyclic : AcyclicOn (L.children g) S) (level : Nat) :
    (∀ x, Reaches (L.children g) root x → L.tree g x = .node x ((L.children g x).map (L.tree g))) ∧
    (level = 0 → L.plan g root level = []) ∧
    (∃ js : List Nat,
      (∀ j, j ∈ js ↔ j < (L.occurrences g root).size ∧ (above (L.occurrences g root) level j).isSome ∧
        first (L.occurrences g root) level j ≠ j) ∧
      js.Pairwise (Precedes (L.occurrences g root) level) ∧
      Redirects (L.occurrences g root) level [] js (L.plan g root level)) ∧
    ∀ i, (sweepTree (L.fingerprint g) level (L.tree g root)).nodes[i]? =
        nodeAt (L.occurrences g root) (first (L.occurrences g root) level i) ∧
      (above (L.occurrences g root) level i = none → first (L.occurrences g root) level i = i) := by
  obtain ⟨nodes, hnodes, hcard⟩ := hS.finite
  obtain ⟨rank, hgraded, -⟩ := exists_graded hacyclic hS.mem hnodes hcard
  have hplan : Redirects _ level [] _ (L.plan g root level) := redirects_sweep (L.layout_occurrences g root) level
  refine ⟨fun x hx => ?_, fun hzero => ?_, ⟨_, fun j => mem_trailing_candidates, pairwise_trailing, hplan⟩,
    fun i => ⟨nodes_sweep_eq_first (L.layout_occurrences g root) level i, first_of_above_eq_none⟩⟩
  · have hmem : x ∈ S := by
      induction hx with
      | refl => exact hroot
      | tail _ hy ih => exact hS.mem ih hy
    exact hgraded.unfold_eq hmem
  · rw [hzero, trailing_candidates_zero] at hplan
    rw [hzero, hplan.eq_nil]

end Linked

/-- The nuts in the second and the third box of the crate are redirected to the first one. In the third box that is another
nut. -/
theorem sweep_merges_nuts_of_crate :
    (∃ js : List Nat,
      (∀ j, j ∈ js ↔ j < (LabelledGraph.linked.occurrences crate 0).size ∧
        (above (LabelledGraph.linked.occurrences crate 0) 2 j).isSome ∧
        first (LabelledGraph.linked.occurrences crate 0) 2 j ≠ j) ∧
      js.Pairwise (Precedes (LabelledGraph.linked.occurrences crate 0) 2) ∧
      Redirects (LabelledGraph.linked.occurrences crate 0) 2 [] js [⟨1, 3, 3⟩, ⟨2, 3, 4⟩]) ∧
    LabelledGraph.linked.plan crate 0 0 = [] ∧
    nodeAt (LabelledGraph.linked.occurrences crate 0) 6 = some 4 ∧
    (sweepTree crate.label 2 (LabelledGraph.linked.tree crate 0)).nodes[6]? = some 3 := by
  have hplan : LabelledGraph.linked.plan crate 0 2 = [⟨1, 3, 3⟩, ⟨2, 3, 4⟩] := by
    rw [Linked.plan, plan, sweepTree, candidates_eq_insertionSort]
    decide +kernel
  have hcrate := Linked.sweep_merges_groups crate.enclosed_univ (Set.mem_univ 0) fun n _ => acyclic_crate n
  refine ⟨hplan ▸ (hcrate 2).2.2.1, (hcrate 0).2.1 rfl, by decide +kernel, ?_⟩
  refine ((hcrate 2).2.2.2 6).1.trans ?_
  decide +kernel

end Schemata.Sharing
