import Mathlib.Data.List.Nodup
import Mathlib.Data.List.Sort
import Mathlib.Data.List.Sublists
import Schemata.Proofs.Sharing.Ancestors

/-!
# What a sweep comes to

A sweep goes through the candidates by digest, ancestor and position, and compares neighbours only. It comes to the
same as the following description, which does not mention neighbours. Candidates with one digest and one ancestor
are a group, and the first of a group is its *leader* (`leader`). Every candidate that is not a leader is redirected
once, in order: the node at its parent, as it stands by then (`standing`), is asked to hold the original node of the
leader in place of the candidate's own (`redirection?`, `redirectionsFrom`).

* `redirections_sweep`: the redirections of a sweep are these;
* `mem_candidates`: the candidates are the occurrences that have an ancestor `level` steps up.
-/

open scoped List

namespace Schemata.Sharing

variable {ν : Type}

/-! ### The order of the candidates -/

instance : Std.TransCmp Digest.compare :=
  inferInstanceAs (Std.TransCmp (compareLex (compareOn Digest.value) (compareOn Digest.length)))

instance : Std.TransOrd Digest :=
  inferInstanceAs (Std.TransCmp Digest.compare)

instance : Std.LawfulEqOrd Digest where
  eq_of_compare {a b} h := by
    change Digest.compare a b = .eq at h
    rw [Digest.compare, Ordering.then_eq_eq] at h
    cases a
    cases b
    simp only [Std.LawfulEqOrd.compare_eq_iff_eq] at h
    rw [h.1, h.2]

namespace Candidate

instance : Std.TransCmp Candidate.compare :=
  inferInstanceAs (Std.TransCmp
    (compareLex (compareOn Candidate.digest) (compareLex (compareOn Candidate.ancestor) (compareOn Candidate.index))))

/-- Candidates are in order. -/
def Le (a b : Candidate) : Prop :=
  (a.compare b).isLE

variable {a b c : Candidate}

theorem sameGroup_iff : a.sameGroup b = true ↔ a.digest = b.digest ∧ a.ancestor = b.ancestor := by
  simp [sameGroup]

theorem sameGroup_comm : a.sameGroup b = b.sameGroup a := by
  rw [Bool.eq_iff_iff, sameGroup_iff, sameGroup_iff]
  exact and_congr eq_comm eq_comm

theorem sameGroup_congr (h : a.sameGroup b = true) : c.sameGroup a = c.sameGroup b := by
  rw [sameGroup_iff] at h
  simp only [sameGroup, h.1, h.2]

/-- In order, a group has nothing of another group between its members. -/
theorem Le.sameGroup_of_sameGroup (hab : a.Le b) (hbc : b.Le c) (hac : a.sameGroup c = true) :
    a.sameGroup b = true := by
  rw [sameGroup_iff] at hac ⊢
  have hd : a.digest = b.digest := by
    have h₁ := Ordering.isLE_left_of_isLE_then hab
    have h₂ := Ordering.isLE_left_of_isLE_then hbc
    rw [← hac.1] at h₂
    exact Std.LawfulEqOrd.eq_of_compare (Std.OrientedCmp.isLE_antisymm h₁ h₂)
  refine ⟨hd, ?_⟩
  have hrest : ∀ {x y : Candidate}, x.Le y → x.digest = y.digest → (compare x.ancestor y.ancestor).isLE := by
    intro x y hxy hdxy
    rw [Le, Candidate.compare, hdxy, Std.ReflOrd.compare_self, Ordering.eq_then] at hxy
    exact Ordering.isLE_left_of_isLE_then hxy
  have h₁ := hrest hab hd
  have h₂ := hrest hbc (hd.symm.trans hac.1)
  rw [← hac.2] at h₂
  exact Std.LawfulEqOrd.eq_of_compare (Std.OrientedCmp.isLE_antisymm h₁ h₂)

/-- In order, the members of a group ascend by position. -/
theorem Le.index_le (hab : a.Le b) (h : a.sameGroup b = true) : a.index ≤ b.index := by
  rw [sameGroup_iff] at h
  rw [Le, Candidate.compare, h.1, h.2, Std.ReflOrd.compare_self, Std.ReflOrd.compare_self, Ordering.eq_then,
    Ordering.eq_then] at hab
  exact Nat.isLE_compare.mp hab

instance : DecidableRel Le :=
  fun a b => inferInstanceAs (Decidable ((a.compare b).isLE = true))

instance : IsTrans Candidate Le :=
  ⟨fun _ _ _ => Std.TransCmp.isLE_trans⟩

instance : Std.Total Le where
  total a b := by
    have hswap : b.compare a = (a.compare b).swap := Std.OrientedCmp.eq_swap
    rw [Le, Le, hswap]
    cases a.compare b <;> simp

instance : Std.Antisymm Le where
  antisymm a b hab hba := by
    have hgroup : a.sameGroup b = true := hab.sameGroup_of_sameGroup hba (sameGroup_iff.mpr ⟨rfl, rfl⟩)
    have hindex : a.index = b.index := (hab.index_le hgroup).antisymm (hba.index_le (sameGroup_comm ▸ hgroup))
    obtain ⟨hdigest, hancestor⟩ := sameGroup_iff.mp hgroup
    cases a
    cases b
    simp_all

end Candidate

/-- The candidates are the occurrences that have an ancestor `level` steps up. -/
theorem mem_candidates {cells : Array (Cell ν)} {level : Nat} {c : Candidate} :
    c ∈ candidates cells level ↔ ∃ cell, cells[c.index]? = some cell ∧ cell.digest = c.digest ∧
      climb (cells.map Cell.parent) level c.index = some c.ancestor := by
  have hsize : (cells.map Cell.parent).size = cells.size := Array.size_map
  simp only [candidates, List.mem_mergeSort, List.mem_filterMap, List.mem_range]
  constructor
  · rintro ⟨i, hi, h⟩
    split at h
    · rename_i cell ancestor hcell habove
      obtain rfl := Option.some.inj h
      exact ⟨cell, hcell, rfl, (getElem?_ancestors_eq_some_iff (hsize ▸ hi)).mp habove⟩
    · exact nomatch h
  · rintro ⟨cell, hcell, hdigest, hclimb⟩
    have hi : c.index < cells.size := (Array.getElem?_eq_some_iff.mp hcell).1
    refine ⟨c.index, hi, ?_⟩
    rw [hcell, (getElem?_ancestors_eq_some_iff (hsize ▸ hi)).mpr hclimb]
    simp only [hdigest]

theorem pairwise_candidates (cells : Array (Cell ν)) (level : Nat) :
    (candidates cells level).Pairwise Candidate.Le :=
  List.pairwise_mergeSort (fun _ _ _ => Std.TransCmp.isLE_trans)
    (fun a b => by
      have htotal : a.Le b ∨ b.Le a := Std.Total.total a b
      rw [Bool.or_eq_true]
      exact htotal) _

/-- The order is told by the candidates alone, so any way to sort them will do. This one can be followed by the kernel. -/
theorem candidates_eq_insertionSort (cells : Array (Cell ν)) (level : Nat) :
    candidates cells level =
      ((List.range cells.size).filterMap fun i =>
        match cells[i]?, (ancestors (cells.map Cell.parent) level)[i]? with
        | some cell, some (some ancestor) => some ⟨cell.digest, ancestor, i⟩
        | _, _ => none).insertionSort Candidate.Le := by
  rw [← List.mergeSort_eq_insertionSort, candidates]
  congr 1
  funext a b
  exact (Bool.decide_coe _).symm

/-- No two candidates stand at one position. -/
theorem nodup_index_candidates (cells : Array (Cell ν)) (level : Nat) :
    ((candidates cells level).map Candidate.index).Nodup := by
  refine ((List.mergeSort_perm _ _).map _).nodup_iff.mpr ?_
  rw [List.map_filterMap]
  refine (List.nodup_range).filterMap fun i j k hi hj => ?_
  have hindex : ∀ {n : Nat}, k ∈ Option.map Candidate.index
      (match cells[n]?, (ancestors (cells.map Cell.parent) level)[n]? with
        | some cell, some (some ancestor) => some ⟨cell.digest, ancestor, n⟩
        | _, _ => none) → n = k := by
    intro n hn
    split at hn
    · exact Option.some.inj hn
    · exact nomatch hn
  exact (hindex hi).trans (hindex hj).symm

/-! ### Leaders and redirections -/

/-- The first candidate of the group of a candidate. -/
def leader (cs : List Candidate) (c : Candidate) : Candidate :=
  (cs.find? fun d => d.sameGroup c).getD c

/-- The node of an occurrence. -/
def nodeAt (cells : Array (Cell ν)) (i : Nat) : Option ν :=
  cells[i]?.map Cell.node

/-- The node that an occurrence stands for once the candidates `done` are redirected to their leaders. -/
def standing (cells : Array (Cell ν)) (cs done : List Candidate) (i : Nat) : Option ν :=
  match done.find? fun c => c.index = i with
  | some c => nodeAt cells (leader cs c).index
  | none => nodeAt cells i

/-- The redirection of a candidate to its leader, unless it is a leader, once the candidates `done` are redirected. -/
def redirection? (cells : Array (Cell ν)) (cs done : List Candidate) (c : Candidate) : Option (Redirection ν) :=
  if leader cs c = c then none
  else do
    let parent ← cells[c.index]?.bind Cell.parent
    return ⟨← standing cells cs done parent, ← nodeAt cells (leader cs c).index, ← nodeAt cells c.index⟩

/-- The redirections of the candidates that are left once the candidates `done` are redirected. -/
def redirectionsFrom (cells : Array (Cell ν)) (cs : List Candidate) :
    (done todo : List Candidate) → List (Redirection ν)
  | _, [] => []
  | done, c :: todo => (redirection? cells cs done c).toList ++ redirectionsFrom cells cs (done ++ [c]) todo

/-- Every redirection is that of a candidate, once the candidates before it are redirected. -/
theorem mem_redirectionsFrom_iff {cells : Array (Cell ν)} {cs : List Candidate} {r : Redirection ν} :
    ∀ {todo done : List Candidate}, r ∈ redirectionsFrom cells cs done todo ↔
      ∃ before c after, todo = before ++ c :: after ∧ redirection? cells cs (done ++ before) c = some r := by
  intro todo
  induction todo with
  | nil => simp [redirectionsFrom]
  | cons c todo ih =>
    intro done
    rw [redirectionsFrom, List.mem_append, Option.mem_toList, ih]
    constructor
    · rintro (h | ⟨before, c', after, rfl, hr⟩)
      · exact ⟨[], c, todo, rfl, by simpa using h⟩
      · exact ⟨c :: before, c', after, rfl, by simpa using hr⟩
    · rintro ⟨before, c', after, hsplit, hr⟩
      cases before with
      | nil =>
        obtain ⟨rfl, -⟩ := List.cons.inj hsplit
        exact .inl (by simpa using hr)
      | cons _ before =>
        obtain ⟨rfl, rfl⟩ := List.cons.inj hsplit
        exact .inr ⟨before, c', after, rfl, by simpa using hr⟩

theorem mem_of_leader_ne {cs : List Candidate} {c : Candidate} (h : leader cs c ≠ c) :
    leader cs c ∈ cs ∧ (leader cs c).sameGroup c = true := by
  unfold leader at h ⊢
  cases hfind : cs.find? fun d => d.sameGroup c with
  | none =>
    rw [hfind] at h
    exact absurd rfl h
  | some d =>
    have hgroup := List.find?_some hfind
    exact ⟨List.mem_of_find?_eq_some hfind, hgroup⟩

theorem leader_mem {cs : List Candidate} {c : Candidate} (hc : c ∈ cs) : leader cs c ∈ cs := by
  by_cases h : leader cs c = c
  · rwa [h]
  · exact (mem_of_leader_ne h).1

/-- The leader of a group is the same for all of its members. -/
theorem leader_congr {cs : List Candidate} {c d : Candidate} (hc : c ∈ cs) (h : c.sameGroup d = true) :
    leader cs c = leader cs d := by
  have hfind : (cs.find? fun e => e.sameGroup c) = cs.find? fun e => e.sameGroup d :=
    congrArg (cs.find? ·) (funext fun e => Candidate.sameGroup_congr h)
  have hsome : (cs.find? fun e => e.sameGroup c).isSome := by
    rw [List.find?_isSome]
    exact ⟨c, hc, Candidate.sameGroup_iff.mpr ⟨rfl, rfl⟩⟩
  obtain ⟨e, he⟩ := Option.isSome_iff_exists.mp hsome
  rw [leader, leader, ← hfind, he, Option.getD_some, Option.getD_some]

/-- A leader leads itself. -/
theorem leader_leader (cs : List Candidate) (c : Candidate) : leader cs (leader cs c) = leader cs c := by
  by_cases h : leader cs c = c
  · rw [h, h]
  · exact leader_congr (mem_of_leader_ne h).1 (mem_of_leader_ne h).2

/-- A leader stands before the other members of its group. -/
theorem leader_index_lt {cs : List Candidate} {c : Candidate} (hsorted : cs.Pairwise Candidate.Le)
    (hnodup : (cs.map Candidate.index).Nodup) (hc : c ∈ cs) (h : leader cs c ≠ c) :
    (leader cs c).index < c.index := by
  obtain ⟨hmem, hgroup⟩ := mem_of_leader_ne h
  have hne : (leader cs c).index ≠ c.index := fun heq => h (List.inj_on_of_nodup_map hnodup hmem hc heq)
  cases hfind : cs.find? fun d => d.sameGroup c with
  | none => exact absurd (Candidate.sameGroup_iff.mpr ⟨rfl, rfl⟩) (List.find?_eq_none.mp hfind c hc)
  | some d =>
    have hleader : leader cs c = d := by rw [leader, hfind, Option.getD_some]
    obtain ⟨-, front, back, rfl, hfront⟩ := List.find?_eq_some_iff_append.mp hfind
    have hback : c ∈ back := by
      rcases List.mem_append.mp hc with hc | hc
      · exact absurd (Candidate.sameGroup_iff.mpr ⟨rfl, rfl⟩) (by simpa using hfront c hc)
      · exact (List.mem_cons.mp hc).resolve_left fun heq => h (hleader.trans heq.symm)
    have hle : d.Le c := (List.pairwise_cons.mp (List.pairwise_append.mp hsorted).2.1).1 c hback
    rw [hleader] at hne hgroup ⊢
    exact lt_of_le_of_ne (hle.index_le hgroup) hne

/-! ### Neighbours and leaders

The list of candidates is taken apart as `done ++ previous :: todo`; a sweep compares `previous` with the first of
`todo`. -/

section Sweep

variable {cells : Array (Cell ν)} {cs done todo : List Candidate} {previous current : Candidate}

private theorem mem_of_split (hcs : cs = done ++ previous :: current :: todo) : current ∈ cs := by
  simp [hcs]

private theorem leader_of_sameGroup (hcs : cs = done ++ previous :: current :: todo)
    (hnodup : (cs.map Candidate.index).Nodup) (h : previous.sameGroup current = true) :
    leader cs current = leader cs previous ∧ leader cs current ≠ current := by
  have hprevious : previous ∈ cs := by simp [hcs]
  refine ⟨(leader_congr hprevious h).symm, fun heq => ?_⟩
  -- the leader is found at `previous` or earlier, and no candidate stands in two places
  have hfind : ∃ d, (done ++ [previous]).find? (fun e => e.sameGroup current) = some d :=
    Option.isSome_iff_exists.mp (List.find?_isSome.mpr ⟨previous, by simp, h⟩)
  obtain ⟨d, hd⟩ := hfind
  have hsplit : cs = (done ++ [previous]) ++ current :: todo := by simp [hcs]
  have hleader : leader cs current = d := by
    rw [leader, hsplit, List.find?_append, hd]
    rfl
  have hmem : current ∈ done ++ [previous] := heq ▸ hleader ▸ List.mem_of_find?_eq_some hd
  rw [hsplit, List.map_append, List.nodup_append] at hnodup
  exact hnodup.2.2 _ (List.mem_map_of_mem hmem) _ (by simp) rfl

private theorem leader_of_not_sameGroup (hcs : cs = done ++ previous :: current :: todo)
    (hsorted : cs.Pairwise Candidate.Le) (h : previous.sameGroup current = false) :
    leader cs current = current := by
  have hsplit : cs = (done ++ [previous]) ++ current :: todo := by simp [hcs]
  have hnone : (done ++ [previous]).find? (fun e => e.sameGroup current) = none := by
    rw [List.find?_eq_none]
    intro d hd hgroup
    rw [hsplit, List.pairwise_append] at hsorted
    have hlast : previous.Le current := hsorted.2.2 _ (by simp) _ (by simp)
    have hdp : d.sameGroup previous = true := by
      rcases List.mem_append.mp hd with hd | hd
      · have hle : d.Le previous := (List.pairwise_append.mp hsorted.1).2.2 _ hd _ (by simp)
        exact hle.sameGroup_of_sameGroup hlast hgroup
      · obtain rfl := List.mem_singleton.mp hd
        exact Candidate.sameGroup_iff.mpr ⟨rfl, rfl⟩
    rw [Candidate.sameGroup_iff] at hdp hgroup
    have hpc : previous.sameGroup current = true :=
      Candidate.sameGroup_iff.mpr ⟨hdp.1.symm.trans hgroup.1, hdp.2.symm.trans hgroup.2⟩
    rw [h] at hpc
    exact Bool.false_ne_true hpc
  have hself : current.sameGroup current = true := Candidate.sameGroup_iff.mpr ⟨rfl, rfl⟩
  rw [leader, hsplit, List.find?_append, hnone, Option.none_or, List.find?_cons, hself]
  rfl

private theorem leader_head (c : Candidate) (todo : List Candidate) : leader (c :: todo) c = c := by
  have hself : c.sameGroup c = true := Candidate.sameGroup_iff.mpr ⟨rfl, rfl⟩
  rw [leader, List.find?_cons, hself]
  rfl

/-- An occurrence stands for its own node if only leaders stand there. -/
theorem standing_of_forall_leader (cells : Array (Cell ν)) {i : Nat}
    (h : ∀ c ∈ done, c.index = i → leader cs c = c) : standing cells cs done i = nodeAt cells i := by
  rw [standing]
  split
  · rename_i c hfind
    have hindex : c.index = i := by simpa using List.find?_some hfind
    rw [h c (List.mem_of_find?_eq_some hfind) hindex, hindex]
  · rfl

private theorem exists_standing {i : Nat} (hi : i < cells.size)
    (hdone : ∀ c ∈ done, (leader cs c).index < cells.size) : ∃ n, standing cells cs done i = some n := by
  have hnode : ∀ {j : Nat}, j < cells.size → ∃ n, nodeAt cells j = some n := fun hj =>
    ⟨_, by rw [nodeAt, Array.getElem?_eq_getElem hj]; rfl⟩
  rw [standing]
  split
  · rename_i c hfind
    exact hnode (hdone c (List.mem_of_find?_eq_some hfind))
  · exact hnode hi

/-- What an occurrence stands for changes with the redirection of the candidate at its position only. -/
private theorem standing_append (cells : Array (Cell ν)) (cs : List Candidate) {c : Candidate}
    (hnodup : ((done ++ [c]).map Candidate.index).Nodup) (i : Nat) :
    standing cells cs (done ++ [c]) i =
      if i = c.index then nodeAt cells (leader cs c).index else standing cells cs done i := by
  by_cases hi : i = c.index
  · subst hi
    have hnone : done.find? (fun d => decide (d.index = c.index)) = none := by
      rw [List.find?_eq_none]
      intro d hd heq
      rw [List.map_append, List.nodup_append] at hnodup
      exact hnodup.2.2 d.index (List.mem_map_of_mem hd) c.index (by simp) (by simpa using heq)
    simp [standing, List.find?_append, hnone]
  · have hne : ¬c.index = i := fun h => hi h.symm
    simp [standing, List.find?_append, hi, hne]

private theorem sweep_of_not_sameGroup (nodes : Array ν) (h : previous.sameGroup current = false) :
    sweep cells nodes (previous :: current :: todo) = sweep cells nodes (current :: todo) := by
  rw [sweep, h]
  rfl

private theorem sweep_of_sameGroup {nodes : Array ν} {source destination holder : ν}
    (h : previous.sameGroup current = true) (hsource : nodes[previous.index]? = some source)
    (hheld : held cells nodes current.index = some (destination, holder)) :
    sweep cells nodes (previous :: current :: todo) =
      { sweep cells (nodes.setIfInBounds current.index source) (current :: todo) with
        redirections := ⟨holder, source, destination⟩ ::
          (sweep cells (nodes.setIfInBounds current.index source) (current :: todo)).redirections } := by
  rw [sweep, h, if_pos rfl, hsource, hheld]

/-- What the sweep keeps up: the nodes are those that the occurrences stand for. -/
private theorem sweep_spec (hsorted : cs.Pairwise Candidate.Le) (hnodup : (cs.map Candidate.index).Nodup)
    (hcells : ∀ c ∈ cs, ∃ cell parent, cells[c.index]? = some cell ∧ cell.parent = some parent ∧
      parent < cells.size) :
    ∀ (todo done : List Candidate) (previous : Candidate) (nodes : Array ν),
      cs = done ++ previous :: todo →
      (∀ i, nodes[i]? = standing cells cs (done ++ [previous]) i) →
      (sweep cells nodes (previous :: todo)).redirections =
          redirectionsFrom cells cs (done ++ [previous]) todo ∧
        ∀ i, (sweep cells nodes (previous :: todo)).nodes[i]? = standing cells cs cs i := by
  have hleaders : ∀ c ∈ cs, (leader cs c).index < cells.size := fun c hc =>
    have ⟨_, _, hcell, _⟩ := hcells _ (leader_mem hc)
    (Array.getElem?_eq_some_iff.mp hcell).1
  intro todo
  induction todo with
  | nil =>
    intro done previous nodes hcs hnodes
    have hsweep : sweep cells nodes [previous] = ⟨[], nodes⟩ := by simp [sweep]
    rw [hsweep]
    exact ⟨rfl, fun i => by rw [hnodes i, ← hcs]⟩
  | cons current todo ih =>
    intro done previous nodes hcs hnodes
    have hsplit : cs = (done ++ [previous]) ++ current :: todo := by simp [hcs]
    have hsub : done ++ [previous] ++ [current] <+ cs := by
      rw [hsplit]
      exact (List.Sublist.refl _).append (by simp)
    have hdone : ((done ++ [previous] ++ [current]).map Candidate.index).Nodup := hnodup.sublist (hsub.map _)
    have hprevious : ((done ++ [previous]).map Candidate.index).Nodup :=
      hdone.sublist ((List.sublist_append_left _ _).map _)
    have hstanding := standing_append cells cs hdone
    have hfresh : ∀ d ∈ done ++ [previous], d.index = current.index → leader cs d = d := by
      rw [List.map_append, List.nodup_append] at hdone
      exact fun d hd heq => absurd heq (hdone.2.2 d.index (List.mem_map_of_mem hd) current.index (by simp))
    obtain ⟨cell, parent, hcell, hparent, hlt⟩ := hcells current (mem_of_split hcs)
    cases hgroup : previous.sameGroup current with
    | false =>
      have hleader := leader_of_not_sameGroup hcs hsorted hgroup
      have hnodes' : ∀ i, nodes[i]? = standing cells cs (done ++ [previous] ++ [current]) i := by
        intro i
        rw [hnodes i, hstanding i, hleader]
        split_ifs with hi
        · rw [hi, standing_of_forall_leader cells hfresh]
        · rfl
      have hnext := ih (done ++ [previous]) current nodes hsplit hnodes'
      rw [sweep_of_not_sameGroup nodes hgroup]
      refine ⟨?_, hnext.2⟩
      rw [hnext.1, redirectionsFrom, redirection?, if_pos hleader]
      rfl
    | true =>
      obtain ⟨hleader, hne⟩ := leader_of_sameGroup hcs hnodup hgroup
      -- the three nodes of the redirection
      obtain ⟨first, -, hfirst, -⟩ := hcells _ (leader_mem (mem_of_split hcs))
      have hsource : nodeAt cells (leader cs current).index = some first.node := by rw [nodeAt, hfirst]; rfl
      have hdestination : nodeAt cells current.index = some cell.node := by rw [nodeAt, hcell]; rfl
      have hnow : nodes[previous.index]? = some first.node := by
        rw [hnodes, standing_append cells cs hprevious, if_pos rfl, ← hleader, hsource]
      have hown : nodes[current.index]? = some cell.node := by
        rw [hnodes, standing_of_forall_leader cells hfresh, hdestination]
      obtain ⟨holder, hholder⟩ : ∃ holder, nodes[parent]? = some holder := by
        rw [hnodes]
        exact exists_standing hlt fun d hd => hleaders d (hsub.subset (List.mem_append_left _ hd))
      have hheld : held cells nodes current.index = some (cell.node, holder) := by
        simp [held, hcell, hparent, hown, hholder]
      have hnodes' : ∀ i, (nodes.setIfInBounds current.index first.node)[i]? =
          standing cells cs (done ++ [previous] ++ [current]) i := by
        intro i
        have hin : current.index < nodes.size := (Array.getElem?_eq_some_iff.mp hown).1
        rw [hstanding i, Array.getElem?_setIfInBounds, hsource]
        by_cases hi : i = current.index
        · rw [if_pos hi.symm, if_pos hin, if_pos hi]
        · rw [if_neg (Ne.symm hi), if_neg hi, hnodes i]
      have hnext := ih (done ++ [previous]) current _ hsplit hnodes'
      rw [sweep_of_sameGroup hgroup hnow hheld]
      refine ⟨?_, hnext.2⟩
      have hredirection : redirection? cells cs (done ++ [previous]) current =
          some ⟨holder, first.node, cell.node⟩ := by
        have hasked : standing cells cs (done ++ [previous]) parent = some holder :=
          (hnodes parent).symm.trans hholder
        simp [redirection?, hne, hcell, hparent, hsource, hdestination, hasked]
      rw [redirectionsFrom, hredirection, ← hnext.1]
      rfl

private theorem sweep_eq (hsorted : cs.Pairwise Candidate.Le) (hnodup : (cs.map Candidate.index).Nodup)
    (hcells : ∀ c ∈ cs, ∃ cell parent, cells[c.index]? = some cell ∧ cell.parent = some parent ∧
      parent < cells.size) :
    (sweep cells (cells.map Cell.node) cs).redirections = redirectionsFrom cells cs [] cs ∧
      ∀ i, (sweep cells (cells.map Cell.node) cs).nodes[i]? = standing cells cs cs i := by
  cases cs with
  | nil => exact ⟨by simp [sweep, redirectionsFrom], fun i => by simp [sweep, standing, nodeAt]⟩
  | cons previous todo =>
    have hhead := leader_head previous todo
    have hnodes : ∀ i, (cells.map Cell.node)[i]? = standing cells (previous :: todo) ([] ++ [previous]) i := by
      intro i
      rw [standing_append cells _ (by simp), hhead, Array.getElem?_map]
      split_ifs with hi
      · rw [hi, nodeAt]
      · rfl
    obtain ⟨hredirections, hend⟩ := sweep_spec hsorted hnodup hcells todo [] previous _ rfl hnodes
    refine ⟨?_, hend⟩
    rw [hredirections, redirectionsFrom, redirection?, if_pos hhead]
    rfl

/-- The redirections of a sweep: every candidate that does not lead its group is redirected to its leader, in
order. -/
theorem redirections_sweep (hsorted : cs.Pairwise Candidate.Le) (hnodup : (cs.map Candidate.index).Nodup)
    (hcells : ∀ c ∈ cs, ∃ cell parent, cells[c.index]? = some cell ∧ cell.parent = some parent ∧
      parent < cells.size) :
    (sweep cells (cells.map Cell.node) cs).redirections = redirectionsFrom cells cs [] cs :=
  (sweep_eq hsorted hnodup hcells).1

/-- At the end of a sweep all candidates stand for the node of their leader. -/
theorem getElem?_nodes_sweep (hsorted : cs.Pairwise Candidate.Le) (hnodup : (cs.map Candidate.index).Nodup)
    (hcells : ∀ c ∈ cs, ∃ cell parent, cells[c.index]? = some cell ∧ cell.parent = some parent ∧
      parent < cells.size) (i : Nat) :
    (sweep cells (cells.map Cell.node) cs).nodes[i]? = standing cells cs cs i :=
  (sweep_eq hsorted hnodup hcells).2 i

end Sweep

end Schemata.Sharing
