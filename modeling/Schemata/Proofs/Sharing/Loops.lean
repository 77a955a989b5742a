import Schemata.Proofs.Sharing.Arena
import Schemata.Proofs.Sharing.Groups

/-!
# A sweep over all occurrences

`Sharing.candidates` leaves out the occurrences without an ancestor before it sorts, and `Sharing.ancestors` finds every
ancestor whatever the tree. Here both are done the other way round:

* the tables of jumps are filled in one after the other, and nothing is shared if there is nothing left to jump from
  (`ancestors?`);
* all occurrences are sorted, those without an ancestor first, and the sweep goes past these (`sweepRanked`).

Together with the hashing of `Schemata.Proofs.Sharing.Arena` this is `sweepLoops`, and `sweepLoops_eq` says that it comes
to what `sweepTree` comes to: the same redirections in the same order, and the same nodes at the end.
-/

namespace Schemata.Sharing

variable {ν : Type}

/-! ### Jumps -/

/-- Append `n` tables of jumps, each twice as far as the last. There is no result once the last one leads nowhere. -/
def doubled? : Nat → Array (Array (Option Nat)) → Option (Array (Array (Option Nat)))
  | 0, tables => some tables
  | n + 1, tables =>
    let last := tables.back?.getD #[]
    if last.any Option.isSome then doubled? n (tables.push (thenJump last last)) else none

/-- Where the jumps over some bits lead from a position, one after the other. -/
def follow (tables : Array (Array (Option Nat))) (powers : List Nat) (i : Nat) : Option Nat :=
  powers.foldl (fun reached k => reached.bind fun up => ((tables.getD k #[])[up]?).join) (some i)

/-- For every position, the ancestor `level` steps up. There is no result if there are no steps to take, nothing to
share, or nothing left to jump from. -/
def ancestors? (parents : Array (Option Nat)) (level : Nat) : Option (Array (Option Nat)) := do
  let log ← (levelPowers level).getLast?
  if parents.size ≤ 1 then none
  let tables ← doubled? log #[parents]
  return Array.ofFn fun i : Fin parents.size => follow tables (levelPowers level) i

variable {parents : Array (Option Nat)}

/-- The tables are those of the jumps, unless one of them leads nowhere. -/
theorem doubled?_eq (parents : Array (Option Nat)) (n : Nat) : ∀ (k : Nat) (tables : Array (Array (Option Nat))),
    tables.toList = (List.range (k + 1)).map (jump parents) →
      match doubled? n tables with
      | some tables => tables.toList = (List.range (k + 1 + n)).map (jump parents)
      | none => ∃ j < k + n, ∀ i : Nat, ((jump parents j)[i]?).join = none := by
  induction n with
  | zero => exact fun _ _ htables => htables
  | succ n ih =>
    intro k tables htables
    have hlast : tables.back?.getD #[] = jump parents k := by
      rw [← Array.getLast?_toList, htables, List.range_succ, List.map_append]
      simp
    rw [doubled?, hlast]
    split_ifs with hany
    · have hnext : (tables.push (thenJump (jump parents k) (jump parents k))).toList =
          (List.range (k + 1 + 1)).map (jump parents) := by
        rw [Array.toList_push, htables, List.range_succ (n := k + 1), List.map_append]
        rfl
      have hrest := ih _ _ hnext
      rwa [Nat.add_assoc (k + 1) 1 n, Nat.add_assoc k 1 n, Nat.add_comm 1 n] at hrest
    · refine ⟨k, by omega, fun i => ?_⟩
      by_contra hsome
      obtain ⟨up, hup⟩ := Option.ne_none_iff_exists'.mp hsome
      exact hany (Array.any_eq_true'.mpr ⟨some up, Array.mem_of_getElem? (Option.join_eq_some_iff.mp hup), rfl⟩)

/-- A jump leads where its steps lead. -/
theorem join_jump (k i : Nat) : ((jump parents k)[i]?).join = climb parents (2 ^ k) i := by
  rcases Nat.lt_or_ge i parents.size with hi | hi
  · rw [(leads_jump parents k).2 i hi, Option.join_some]
  · rw [climb_eq_none (Nat.two_pow_pos k) hi, Array.getElem?_eq_none ((leads_jump parents k).1 ▸ hi)]
    rfl

/-- Jumps one after the other lead where their steps lead together. -/
theorem foldl_jump_eq_climb {tables : Array (Array (Option Nat))} (powers : List Nat)
    (htables : ∀ k ∈ powers, tables.getD k #[] = jump parents k) (i : Nat) : ∀ n : Nat,
    powers.foldl (fun reached k => reached.bind fun up => ((tables.getD k #[])[up]?).join) (climb parents n i) =
      climb parents (n + (powers.map (2 ^ ·)).sum) i := by
  induction powers with
  | nil => exact fun n => rfl
  | cons k powers ih =>
    intro n
    have hjump : ((climb parents n i).bind fun up => ((tables.getD k #[])[up]?).join) = climb parents (n + 2 ^ k) i := by
      rw [climb_add, htables k (by simp)]
      simp only [join_jump]
    rw [List.foldl_cons, hjump, ih (fun k hk => htables k (by simp [hk])), List.map_cons, List.sum_cons, Nat.add_assoc]

theorem getLast?_levelPowers {level : Nat} (hlevel : 0 < level) : (levelPowers level).getLast? = some level.log2 := by
  rw [levelPowers, List.range_succ, List.filter_append]
  simp [Nat.testBit_log2 (Nat.ne_of_gt hlevel)]

/-- The tables up to the highest bit of `level` lead `level` steps up. -/
theorem follow_eq_climb {tables : Array (Array (Option Nat))} {level : Nat}
    (htables : tables.toList = (List.range (level.log2 + 1)).map (jump parents)) (i : Nat) :
    follow tables (levelPowers level) i = climb parents level i := by
  have hget : ∀ k ∈ levelPowers level, tables.getD k #[] = jump parents k := fun k hk => by
    rw [levelPowers, List.mem_filter, List.mem_range] at hk
    rw [Array.getD_eq_getD_getElem?, ← Array.getElem?_toList, htables, List.getElem?_map, List.getElem?_range hk.1]
    rfl
  have hsum := foldl_jump_eq_climb (levelPowers level) hget i 0
  rwa [sum_levelPowers, Nat.zero_add] at hsum

/-- The ancestors are found, unless there are none. -/
theorem ancestors?_eq {level : Nat} (hlevel : 0 < level) (hroot : parents[0]? = some none) :
    match ancestors? parents level with
    | some above => above = ancestors parents level
    | none => ∀ i, climb parents level i = none := by
  rw [ancestors?, getLast?_levelPowers hlevel]
  simp only [Option.bind_eq_bind, Option.bind_some]
  by_cases hsize : parents.size ≤ 1
  · rw [if_pos hsize]
    intro i
    have hnone : parents[i]?.join = none := by
      cases i with
      | zero => rw [hroot, Option.join_some]
      | succ i => rw [Array.getElem?_eq_none (by omega), Option.join_none]
    obtain ⟨n, rfl⟩ : ∃ n, level = n + 1 := ⟨level - 1, by omega⟩
    rw [climb, hnone, Option.bind_none]
  · rw [if_neg hsize]
    have htables := doubled?_eq parents level.log2 0 #[parents] rfl
    cases hdoubled : doubled? level.log2 #[parents] with
    | none =>
      -- Steps that begin with a jump to nowhere lead nowhere.
      rw [hdoubled] at htables
      obtain ⟨j, hj, hnone⟩ := htables
      intro i
      have hle : 2 ^ j ≤ level :=
        (Nat.pow_le_pow_right (by omega) (by omega)).trans (Nat.log2_self_le (Nat.ne_of_gt hlevel))
      rw [← Nat.add_sub_cancel' hle, climb_add, ← join_jump, hnone i, Option.bind_none]
    | some tables =>
      rw [hdoubled, Nat.zero_add, Nat.add_comm] at htables
      have hleads := leads_ancestors parents level
      refine Array.ext_getElem? fun i => ?_
      rcases Nat.lt_or_ge i parents.size with hi | hi
      · rw [hleads.2 i hi, ← follow_eq_climb htables]
        simp [hi]
      · rw [Array.getElem?_eq_none (by simpa using hi), Array.getElem?_eq_none (hleads.1 ▸ hi)]

/-! ### Occurrences in order -/

/-- What the sort compares of any occurrence. -/
structure Ranked where
  /-- The digest of the subtree. -/
  digest : Digest
  /-- The position of the ancestor, if there is one. -/
  ancestor : Option Nat
  /-- The position of the occurrence. -/
  index : Nat
deriving DecidableEq, Repr

namespace Ranked

/-- Those without an ancestor first; then by digest, by ancestor and by position. -/
protected def compare (a b : Ranked) : Ordering :=
  (compare a.ancestor.isSome b.ancestor.isSome).then
    ((compare a.digest b.digest).then ((compare a.ancestor b.ancestor).then (compare a.index b.index)))

/-- The candidate for sharing that an occurrence is, if it has an ancestor. -/
def candidate? (r : Ranked) : Option Candidate :=
  r.ancestor.map fun ancestor => ⟨r.digest, ancestor, r.index⟩

instance : Std.TransCmp Ranked.compare :=
  inferInstanceAs (Std.TransCmp (compareLex (compareOn fun r : Ranked => r.ancestor.isSome)
    (compareLex (compareOn Ranked.digest) (compareLex (compareOn Ranked.ancestor) (compareOn Ranked.index)))))

/-- In order, the candidates come behind the others. -/
theorem isSome_ancestor_of_isLE {a b : Ranked} (h : (a.compare b).isLE = true) (ha : a.ancestor.isSome = true) :
    b.ancestor.isSome = true := by
  have hfirst := Ordering.isLE_left_of_isLE_then h
  rw [ha] at hfirst
  cases hb : b.ancestor.isSome with
  | true => rfl
  | false =>
    rw [hb] at hfirst
    exact absurd hfirst (by decide)

/-- And among themselves they are in order as well. -/
theorem le_of_isLE {a b : Ranked} {c d : Candidate} (h : (a.compare b).isLE = true) (hc : a.candidate? = some c)
    (hd : b.candidate? = some d) : c.Le d := by
  obtain ⟨m, hm, rfl⟩ := Option.map_eq_some_iff.mp hc
  obtain ⟨n, hn, rfl⟩ := Option.map_eq_some_iff.mp hd
  rw [Ranked.compare, hm, hn] at h
  exact h

end Ranked

/-- All occurrences in the order of the sort. -/
def ranked (cells : Array (Cell ν)) (above : Array (Option Nat)) : List Ranked :=
  ((List.range cells.size).filterMap fun i => cells[i]?.map fun cell => ⟨cell.digest, above[i]?.join, i⟩).mergeSort
    fun a b => (a.compare b).isLE

theorem pairwise_ranked (cells : Array (Cell ν)) (above : Array (Option Nat)) :
    (ranked cells above).Pairwise fun a b => (a.compare b).isLE = true :=
  List.pairwise_mergeSort (fun _ _ _ => Std.TransCmp.isLE_trans)
    (fun a b => by
      have hswap : b.compare a = (a.compare b).swap := Std.OrientedCmp.eq_swap
      rw [hswap]
      cases a.compare b <;> rfl) _

/-- The candidates among all occurrences in order are the candidates in order. -/
theorem filterMap_candidate?_ranked (cells : Array (Cell ν)) (level : Nat) :
    (ranked cells (ancestors (cells.map Cell.parent) level)).filterMap Ranked.candidate? = candidates cells level := by
  refine List.Perm.eq_of_pairwise' (r := Candidate.Le) ?_ (pairwise_candidates cells level) ?_
  · exact List.Pairwise.filterMap Ranked.candidate? (fun _ _ hab _ hc _ hd => Ranked.le_of_isLE hab hc hd)
      (pairwise_ranked _ _)
  · refine ((List.mergeSort_perm _ _).filterMap _).trans ((List.Perm.of_eq ?_).trans (List.mergeSort_perm _ _).symm)
    rw [List.filterMap_filterMap]
    refine List.filterMap_congr fun i _ => ?_
    cases cells[i]? with
    | none => rfl
    | some cell =>
      rcases (ancestors (cells.map Cell.parent) level)[i]? with _ | _ | ancestor <;> rfl

/-! ### The sweep -/

/-- Go through the occurrences in order. One whose predecessor has no ancestor, another one or another digest is passed
over, and any other is redirected. -/
def sweepRanked (cells : Array (Cell ν)) : Array ν → List Ranked → Swept ν
  | nodes, previous :: current :: rest =>
    if previous.ancestor.isNone || previous.ancestor != current.ancestor || previous.digest != current.digest then
      sweepRanked cells nodes (current :: rest)
    else
      match nodes[previous.index]?, held cells nodes current.index with
      | some source, some (destination, holder) =>
        let swept := sweepRanked cells (nodes.setIfInBounds current.index source) (current :: rest)
        { swept with redirections := ⟨holder, source, destination⟩ :: swept.redirections }
      | _, _ => sweepRanked cells nodes (current :: rest)
  | nodes, _ => ⟨[], nodes⟩

/-- A sweep over all occurrences goes past those that are no candidates. -/
theorem sweepRanked_eq (cells : Array (Cell ν)) (rs : List Ranked) : ∀ nodes : Array ν,
    (rs.Pairwise fun a b => a.ancestor.isSome = true → b.ancestor.isSome = true) →
      sweepRanked cells nodes rs = sweep cells nodes (rs.filterMap Ranked.candidate?) := by
  induction rs with
  | nil =>
    intro nodes _
    simp [sweepRanked, sweep]
  | cons previous rs ih =>
    intro nodes h
    cases rs with
    | nil => cases hprevious : previous.candidate? <;> simp [sweepRanked, sweep, hprevious]
    | cons current rest =>
      have hnext := fun nodes => ih nodes h.of_cons
      obtain ⟨d, ancestor, i⟩ := previous
      cases ancestor with
      | none =>
        have hskip : (⟨d, none, i⟩ : Ranked).candidate? = none := rfl
        rw [sweepRanked, if_pos (by simp), hnext, List.filterMap_cons_none hskip]
      | some m =>
        obtain ⟨d', ancestor', j⟩ := current
        obtain ⟨n, rfl⟩ : ∃ n, ancestor' = some n :=
          Option.isSome_iff_exists.mp (List.rel_of_pairwise_cons h List.mem_cons_self rfl)
        have hfirst : (⟨d, some m, i⟩ : Ranked).candidate? = some ⟨d, m, i⟩ := rfl
        have hsecond : (⟨d', some n, j⟩ : Ranked).candidate? = some ⟨d', n, j⟩ := rfl
        rw [List.filterMap_cons_some hsecond] at hnext
        rw [sweepRanked, List.filterMap_cons_some hfirst, List.filterMap_cons_some hsecond, sweep]
        by_cases hsame : (⟨d, m, i⟩ : Candidate).sameGroup ⟨d', n, j⟩ = true
        · obtain ⟨hd, hm⟩ := Candidate.sameGroup_iff.mp hsame
          rw [if_pos hsame, if_neg (by simp [show d = d' from hd, show m = n from hm])]
          cases nodes[i]? with
          | none => exact hnext nodes
          | some source =>
            cases held cells nodes j with
            | none => exact hnext nodes
            | some pair => simp only [hnext]
        · have hapart : d = d' → m ≠ n := fun hd hm => hsame (Candidate.sameGroup_iff.mpr ⟨hd, hm⟩)
          rw [if_neg hsame, if_pos (by simpa [imp_iff_not_or, or_comm] using hapart)]
          exact hnext nodes

/-- The redirections that share the equal subtrees of a tree: the tree is pushed onto an arena and hashed in a reverse
sweep, the ancestors are found, and the occurrences are sorted and swept. -/
def sweepLoops (fingerprint : ν → String) (level : Nat) (tree : Tree ν) : Swept ν :=
  let arena := push #[] none tree
  let digests := ((hashArena fingerprint arena).run {}).1
  let cells := arena.zipWith (fun entry digest => ⟨entry.node, entry.parent, digest⟩) digests
  let nodes := cells.map Cell.node
  if level = 0 then ⟨[], nodes⟩
  else
    match ancestors? (cells.map Cell.parent) level with
    | none => ⟨[], nodes⟩
    | some above => sweepRanked cells nodes (ranked cells above)

/-- **The loops share what the description shares.** For every tree and at every level they make the same redirections, in
the same order, and leave the same nodes. -/
theorem sweepLoops_eq (fingerprint : ν → String) (level : Nat) (tree : Tree ν) :
    sweepLoops fingerprint level tree = sweepTree fingerprint level tree := by
  have hroot : ((occurrences fingerprint tree).map Cell.parent)[0]? = some none := by
    cases tree
    rw [occurrences_eq, Tree.annotate, cells]
    simp
  rw [sweepLoops, sweepTree]
  simp only [← occurrences_eq_arena]
  rcases Nat.eq_zero_or_pos level with rfl | hlevel
  · rw [if_pos rfl, sweep_eq_nil _ (pairwise_candidates_zero _)]
  · rw [if_neg (Nat.ne_of_gt hlevel)]
    have habove := ancestors?_eq hlevel hroot
    cases hfound : ancestors? ((occurrences fingerprint tree).map Cell.parent) level with
    | none =>
      rw [hfound] at habove
      have hnone : candidates (occurrences fingerprint tree) level = [] :=
        List.eq_nil_iff_forall_not_mem.mpr fun c hc => by
          obtain ⟨-, -, -, hclimb⟩ := mem_candidates.mp hc
          exact Option.some_ne_none _ (hclimb.symm.trans (habove c.index))
      rw [hnone, sweep_eq_nil _ .nil]
    | some above =>
      rw [hfound] at habove
      obtain rfl := habove
      rw [← filterMap_candidate?_ranked]
      exact sweepRanked_eq _ _ _ ((pairwise_ranked _ _).imp Ranked.isSome_ancestor_of_isLE)

end Schemata.Sharing
