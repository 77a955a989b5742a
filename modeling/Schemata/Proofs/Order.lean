import Mathlib.Data.Finset.Card
import Mathlib.Logic.Relation
import Schemata.Order

/-!
# The order of a depth-first search

`Order.predecessorsFirst` searches along the successors and then checks the order it has found against the
predecessors. If the successors of nodes are nodes and the predecessors are those of the same links, then

* an order that it returns has every node once, and every node after all of its predecessors;
* a node that it refuses is on a cycle;
* it returns an order exactly if there is no cycle (`exists_predecessorsFirst_eq_ok_iff`).

The search keeps two things in mind (`Sound`). A node that is discovered but not finished leads to the node that is
being searched; and when a node is finished, each of its successors is finished before it, or leads back to it. So a
successor that does not come later in the finished list closes a cycle, whichever way the search went.
-/

namespace Schemata.Order

variable {α : Type} {successors predecessors : α → List α} {nodes : List α} {s t : Search α} {n : α}

/-- A link leads from a node to one of its successors. -/
def Link (successors : α → List α) (a b : α) : Prop :=
  b ∈ successors a

/-- There are links from a node, over any number of nodes, to another. -/
abbrev Reaches (successors : α → List α) : α → α → Prop :=
  Relation.ReflTransGen (Link successors)

/-- There are links from a node back to itself. -/
def OnCycle (successors : α → List α) (n : α) : Prop :=
  Relation.TransGen (Link successors) n n

theorem onCycle_of_mem (h : n ∈ successors n) : OnCycle successors n :=
  Relation.TransGen.single h

/-! ### What a search keeps -/

/-- A node is open if the search has come to it and is not done with it. -/
def Search.Open (s : Search α) (n : α) : Prop :=
  n ∈ s.discovered ∧ n ∉ s.finished

/-- What holds of a search at any time: each successor of a finished node is finished before it or leads back
to it, and none is the node itself. -/
structure Search.Sound (successors : α → List α) (nodes : List α) (s : Search α) : Prop where
  /-- Only nodes are discovered. -/
  discovered_mem : ∀ n ∈ s.discovered, n ∈ nodes
  /-- What is finished has been discovered. -/
  finished_discovered : ∀ n ∈ s.finished, n ∈ s.discovered
  /-- Nothing is finished twice. -/
  nodup_finished : s.finished.Nodup
  /-- A finished node comes in front of its successors, those apart that lead back to it. -/
  settled : ∀ later n earlier, s.finished = later ++ n :: earlier → ∀ m ∈ successors n,
    m ≠ n ∧ (m ∈ earlier ∨ Reaches successors m n)

/-- A node that is discovered is open. -/
theorem Search.open_discover (hn : n ∉ s.finished) {x : α} :
    Search.Open { s with discovered := n :: s.discovered } x ↔ s.Open x ∨ x = n := by
  constructor
  · rintro ⟨hx, hunfinished⟩
    rcases List.mem_cons.mp hx with rfl | hx
    · exact .inr rfl
    · exact .inl ⟨hx, hunfinished⟩
  · rintro (⟨hx, hunfinished⟩ | rfl)
    · exact ⟨List.mem_cons_of_mem _ hx, hunfinished⟩
    · exact ⟨List.mem_cons_self, hn⟩

/-- If what is open leads to a node, it does so once the node is discovered. -/
theorem Search.reaches_of_open_discover (hn : n ∉ s.finished) (h : ∀ x, s.Open x → Reaches successors x n) {x : α}
    (hx : Search.Open { s with discovered := n :: s.discovered } x) : Reaches successors x n := by
  rcases (Search.open_discover hn).mp hx with hx | rfl
  · exact h x hx
  · exact .refl

theorem Search.Sound.discover (h : s.Sound successors nodes) (hn : n ∈ nodes) :
    Search.Sound successors nodes { s with discovered := n :: s.discovered } where
  discovered_mem x hx := by
    rcases List.mem_cons.mp hx with rfl | hx
    · exact hn
    · exact h.discovered_mem x hx
  finished_discovered x hx := List.mem_cons_of_mem _ (h.finished_discovered x hx)
  nodup_finished := h.nodup_finished
  settled := h.settled

/-- A later state of a search, with the same nodes open. -/
structure Search.Grows (s t : Search α) : Prop where
  /-- What is discovered stays so. -/
  discovered : s.discovered ⊆ t.discovered
  /-- What has been opened since is finished. -/
  open_iff : ∀ n, t.Open n ↔ s.Open n

theorem Search.Grows.refl (s : Search α) : s.Grows s :=
  ⟨List.Subset.refl _, fun _ => Iff.rfl⟩

theorem Search.Grows.trans {r : Search α} (hrs : r.Grows s) (hst : s.Grows t) : r.Grows t :=
  ⟨List.Subset.trans hrs.discovered hst.discovered, fun n => (hst.open_iff n).trans (hrs.open_iff n)⟩

/-- What a search from the nodes `targets` comes to: a later state in which they are discovered, or a node that is
its own successor. -/
def Covers (successors : α → List α) (nodes : List α) (s : Search α) (targets : List α) :
    Except α (Search α) → Prop
  | .ok t => t.Sound successors nodes ∧ s.Grows t ∧ ∀ n ∈ targets, n ∈ t.discovered
  | .error n => n ∈ nodes ∧ n ∈ successors n

variable [DecidableEq α]

/-- The number of nodes that the search has not come to. -/
def remaining (nodes : List α) (s : Search α) : Nat :=
  (nodes.toFinset.filter (· ∉ s.discovered)).card

theorem remaining_le_of_subset (h : s.discovered ⊆ t.discovered) : remaining nodes t ≤ remaining nodes s :=
  Finset.card_le_card (Finset.monotone_filter_right _ fun _ _ hnew hold => hnew (h hold))

theorem remaining_pos (hn : n ∈ nodes) (hnew : n ∉ s.discovered) : 0 < remaining nodes s :=
  Finset.card_pos.mpr ⟨n, by simp [hn, hnew]⟩

theorem remaining_discover_lt (hn : n ∈ nodes) (hnew : n ∉ s.discovered) :
    remaining nodes { s with discovered := n :: s.discovered } < remaining nodes s := by
  refine Finset.card_lt_card ((Finset.ssubset_iff_of_subset ?_).mpr ⟨n, ?_, ?_⟩)
  · exact Finset.monotone_filter_right _ fun _ _ hnew hold => hnew (List.mem_cons_of_mem _ hold)
  · simp [hn, hnew]
  · simp

/-- A search from one node after the other covers them all if each of its parts does. -/
theorem covers_foldlM {bound : Nat}
    (hvisit : ∀ s n, s.Sound successors nodes → n ∈ nodes → (∀ x, s.Open x → Reaches successors x n) →
      remaining nodes s ≤ bound → Covers successors nodes s [n] (visit successors bound s n))
    (targets : List α) (hsound : s.Sound successors nodes) (htargets : ∀ n ∈ targets, n ∈ nodes)
    (hopen : ∀ x, s.Open x → ∀ n ∈ targets, Reaches successors x n) (hbound : remaining nodes s ≤ bound) :
    Covers successors nodes s targets (targets.foldlM (visit successors bound) s) := by
  induction targets generalizing s with
  | nil => exact ⟨hsound, .refl s, by simp⟩
  | cons n targets ih =>
    have hn := hvisit s n hsound (htargets n (by simp)) (fun x hx => hopen x hx n (by simp)) hbound
    rw [List.foldlM_cons]
    cases hresult : visit successors bound s n with
    | error p =>
      rw [hresult] at hn
      exact hn
    | ok t =>
      rw [hresult] at hn
      obtain ⟨ht, hst, hdiscovered⟩ := hn
      -- The search grows, so the other targets are reached from what is open as before.
      have hrest := ih ht (fun m hm => htargets m (by simp [hm]))
        (fun x hx m hm => hopen x ((hst.open_iff x).mp hx) m (by simp [hm]))
        ((remaining_le_of_subset hst.discovered).trans hbound)
      change Covers successors nodes s (n :: targets) (targets.foldlM (visit successors bound) t)
      cases hfinal : targets.foldlM (visit successors bound) t with
      | error p =>
        rw [hfinal] at hrest
        exact hrest
      | ok u =>
        rw [hfinal] at hrest
        obtain ⟨hu, htu, hall⟩ := hrest
        refine ⟨hu, hst.trans htu, fun m hm => ?_⟩
        rcases List.mem_cons.mp hm with rfl | hm
        · exact htu.discovered (hdiscovered m (by simp))
        · exact hall m hm

/-- A search from a node that all open nodes lead to covers the node. -/
theorem covers_visit (hclosed : ∀ n ∈ nodes, ∀ m ∈ successors n, m ∈ nodes) (bound : Nat) :
    ∀ (s : Search α) (n : α), s.Sound successors nodes → n ∈ nodes →
      (∀ x, s.Open x → Reaches successors x n) → remaining nodes s ≤ bound →
      Covers successors nodes s [n] (visit successors bound s n) := by
  induction bound with
  | zero =>
    intro s n hsound hn _ hbound
    have hdiscovered : n ∈ s.discovered := by
      by_contra hnew
      exact absurd (remaining_pos hn hnew) (by omega)
    exact ⟨hsound, .refl s, by simpa using hdiscovered⟩
  | succ bound ih =>
    intro s n hsound hn hopen hbound
    rw [visit]
    split_ifs with hdiscovered hloop
    · exact ⟨hsound, .refl s, by simpa using hdiscovered⟩
    · exact ⟨hn, hloop⟩
    · have hunfinished : n ∉ s.finished := fun h => hdiscovered (hsound.finished_discovered n h)
      set entered : Search α := { s with discovered := n :: s.discovered } with hentered
      have hopened : ∀ x, entered.Open x ↔ s.Open x ∨ x = n := fun x => Search.open_discover hunfinished
      have hleads : ∀ x, entered.Open x → Reaches successors x n :=
        fun x hx => Search.reaches_of_open_discover hunfinished hopen hx
      have hsoundEntered : entered.Sound successors nodes := hsound.discover hn
      have hbelow := covers_foldlM ih (successors n) hsoundEntered (hclosed n hn)
        (fun x hx m hm => (hleads x hx).tail hm)
        (Nat.le_of_lt_succ ((remaining_discover_lt hn hdiscovered).trans_le hbound))
      cases hresult : (successors n).foldlM (visit successors bound) entered with
      | error p =>
        rw [hresult] at hbelow
        exact hbelow
      | ok t =>
        rw [hresult] at hbelow
        obtain ⟨ht, hgrown, hall⟩ := hbelow
        have hn_open : t.Open n := (hgrown.open_iff n).mpr ((hopened n).mpr (.inr rfl))
        refine ⟨⟨ht.discovered_mem, ?_, ?_, ?_⟩, ⟨?_, ?_⟩, ?_⟩
        · intro x hx
          rcases List.mem_cons.mp hx with rfl | hx
          · exact hn_open.1
          · exact ht.finished_discovered x hx
        · exact List.nodup_cons.mpr ⟨hn_open.2, ht.nodup_finished⟩
        · intro later p earlier hsplit m hm
          cases later with
          | nil =>
            -- `n` itself is finished last: a successor that is not finished is open, so it leads to `n`.
            obtain ⟨rfl, rfl⟩ := List.cons.inj hsplit
            refine ⟨fun h => hloop (h ▸ hm), ?_⟩
            by_cases hfinished : m ∈ t.finished
            · exact .inl hfinished
            · exact .inr (hleads m ((hgrown.open_iff m).mp ⟨hall m hm, hfinished⟩))
          | cons _ later =>
            obtain ⟨-, hsplit⟩ := List.cons.inj hsplit
            exact ht.settled later p earlier hsplit m hm
        · exact List.Subset.trans (List.subset_cons_self n s.discovered) hgrown.discovered
        · intro x
          have hx : t.Open x ↔ s.Open x ∨ x = n := (hgrown.open_iff x).trans (hopened x)
          have hnew : ¬ s.Open n := fun h => hdiscovered h.1
          simp only [Search.Open, List.mem_cons, not_or] at hx hnew ⊢
          grind
        · simpa using hn_open.1

/-- A search from all nodes finishes each of them once, or comes to a node that is its own successor. -/
theorem search_spec (hclosed : ∀ n ∈ nodes, ∀ m ∈ successors n, m ∈ nodes) :
    match search successors nodes with
    | .ok order => Search.Sound successors nodes ⟨order, order⟩ ∧ ∀ n, n ∈ order ↔ n ∈ nodes
    | .error n => n ∈ nodes ∧ n ∈ successors n := by
  have hempty : (⟨[], []⟩ : Search α).Sound successors nodes :=
    ⟨by simp, by simp, List.nodup_nil, by simp⟩
  have hall := covers_foldlM (covers_visit hclosed nodes.length) nodes hempty (fun _ h => h)
    (fun x hx => absurd hx.1 List.not_mem_nil)
    ((Finset.card_filter_le _ _).trans nodes.toFinset_card_le)
  rw [search]
  cases hresult : nodes.foldlM (visit successors nodes.length) ⟨[], []⟩ with
  | error n =>
    rw [hresult] at hall
    exact hall
  | ok t =>
    rw [hresult] at hall
    obtain ⟨ht, hgrown, hdiscovered⟩ := hall
    have hfinished : ∀ n ∈ t.discovered, n ∈ t.finished := by
      intro n hn
      by_contra hopen
      exact List.not_mem_nil ((hgrown.open_iff n).mp ⟨hn, hopen⟩).1
    refine ⟨⟨fun n hn => ?_, fun _ h => h, ht.nodup_finished, ht.settled⟩, fun n => ⟨fun hn => ?_, fun hn => ?_⟩⟩
    · exact ht.discovered_mem n (ht.finished_discovered n hn)
    · exact ht.discovered_mem n (ht.finished_discovered n hn)
    · exact hfinished n (hdiscovered n hn)

/-! ### The check of the order -/

theorem exists_of_firstLate?_eq_some {p : α} {before order : List α}
    (h : firstLate? predecessors before order = some p) :
    ∃ earlier n later, order = earlier ++ n :: later ∧ p ∈ predecessors n ∧ p ∉ n :: (earlier.reverse ++ before) := by
  induction order generalizing before with
  | nil => simp [firstLate?] at h
  | cons n rest ih =>
    rw [firstLate?] at h
    split at h
    · rename_i q hq
      obtain rfl : q = p := Option.some.inj h
      exact ⟨[], n, rest, rfl, List.mem_of_find?_eq_some hq, by simpa using List.find?_some hq⟩
    · obtain ⟨earlier, m, later, rfl, hp, hnew⟩ := ih h
      exact ⟨n :: earlier, m, later, rfl, hp, by simpa using hnew⟩

theorem firstLate?_eq_none_iff {before order : List α} :
    firstLate? predecessors before order = none ↔
      ∀ earlier n later, order = earlier ++ n :: later →
        ∀ p ∈ predecessors n, p ∈ n :: (earlier.reverse ++ before) := by
  induction order generalizing before with
  | nil => simp [firstLate?]
  | cons n rest ih =>
    rw [firstLate?]
    constructor
    · intro h
      split at h
      · cases h
      · rename_i hnone
        intro earlier m later hsplit p hp
        cases earlier with
        | nil =>
          obtain ⟨rfl, rfl⟩ := List.cons.inj hsplit
          have hhead := List.find?_eq_none.mp hnone p hp
          simpa only [decide_eq_true_eq, not_not, List.reverse_nil, List.nil_append] using hhead
        | cons _ earlier =>
          obtain ⟨rfl, rfl⟩ := List.cons.inj hsplit
          simpa using ih.mp h earlier m later rfl p hp
    · intro h
      have hhead : (predecessors n).find? (fun p => p ∉ n :: before) = none :=
        List.find?_eq_none.mpr fun p hp => by
          simpa only [decide_eq_true_eq, not_not, List.reverse_nil, List.nil_append] using h [] n rest rfl p hp
      rw [hhead]
      refine ih.mpr fun earlier m later hsplit p hp => ?_
      simpa using h (n :: earlier) m later (by rw [hsplit, List.cons_append]) p hp

/-- Every node of a list comes after its predecessors. -/
def PredecessorsFirst (predecessors : α → List α) (order : List α) : Prop :=
  ∀ earlier n later, order = earlier ++ n :: later → ∀ p ∈ predecessors n, p ∈ earlier

/-- In an order with predecessors first, a predecessor stands at an earlier position. -/
theorem PredecessorsFirst.idxOf_lt {order : List α} {p : α} (h : PredecessorsFirst predecessors order)
    (hn : n ∈ order) (hp : p ∈ predecessors n) : order.idxOf p < order.idxOf n := by
  obtain ⟨earlier, later, rfl, hfirst⟩ := List.eq_append_cons_of_mem hn
  have hpe : p ∈ earlier := h earlier n later rfl p hp
  rw [List.idxOf_append_of_mem hpe, List.idxOf_append_of_notMem hfirst, List.idxOf_cons_self, Nat.add_zero]
  exact List.idxOf_lt_length_of_mem hpe

/-- An order with predecessors first shows that there is no cycle. -/
theorem PredecessorsFirst.not_onCycle {order : List α} (h : PredecessorsFirst predecessors order)
    (hclosed : ∀ n ∈ order, ∀ m ∈ successors n, m ∈ order)
    (hlinks : ∀ n ∈ order, ∀ p ∈ order, n ∈ successors p → p ∈ predecessors n) (hn : n ∈ order) :
    ¬ OnCycle successors n := by
  have honwards : ∀ m, Relation.TransGen (Link successors) n m → m ∈ order ∧ order.idxOf n < order.idxOf m := by
    intro m hm
    induction hm with
    | single hlink =>
      have hmem := hclosed n hn _ hlink
      exact ⟨hmem, h.idxOf_lt hmem (hlinks _ hmem n hn hlink)⟩
    | tail _ hlink ih =>
      have hmem := hclosed _ ih.1 _ hlink
      exact ⟨hmem, ih.2.trans (h.idxOf_lt hmem (hlinks _ hmem _ ih.1 hlink))⟩
  exact fun hcycle => Nat.lt_irrefl _ (honwards n hcycle).2

/-! ### The order as a whole -/

theorem predecessorsFirst_eq_ok_iff {order : List α} :
    predecessorsFirst successors predecessors nodes = .ok order ↔
      search successors nodes = .ok order ∧ firstLate? predecessors [] order = none := by
  simp only [predecessorsFirst, bind, Except.bind]
  cases search successors nodes with
  | error n => simp
  | ok found =>
    cases hlate : firstLate? predecessors [] found <;> grind

theorem predecessorsFirst_eq_error_iff {p : α} :
    predecessorsFirst successors predecessors nodes = .error p ↔
      search successors nodes = .error p ∨
        ∃ order, search successors nodes = .ok order ∧ firstLate? predecessors [] order = some p := by
  simp only [predecessorsFirst, bind, Except.bind]
  cases search successors nodes with
  | error n => simp
  | ok found =>
    cases hlate : firstLate? predecessors [] found <;> grind

section PredecessorsFirst

variable (hclosed : ∀ n ∈ nodes, ∀ m ∈ successors n, m ∈ nodes)
  (hlinks : ∀ n ∈ nodes, ∀ p, p ∈ predecessors n ↔ p ∈ nodes ∧ n ∈ successors p)

include hclosed hlinks

/-- A node that is refused is on a cycle. -/
theorem onCycle_of_predecessorsFirst_eq_error {p : α}
    (h : predecessorsFirst successors predecessors nodes = .error p) : p ∈ nodes ∧ OnCycle successors p := by
  have hspec := search_spec hclosed
  rcases predecessorsFirst_eq_error_iff.mp h with hloop | ⟨order, hsearch, hlate⟩
  · rw [hloop] at hspec
    exact ⟨hspec.1, onCycle_of_mem hspec.2⟩
  · rw [hsearch] at hspec
    obtain ⟨hsound, hmem⟩ := hspec
    obtain ⟨earlier, n, later, rfl, hpred, hnot⟩ := exists_of_firstLate?_eq_some hlate
    obtain ⟨hp, hlink⟩ := (hlinks n ((hmem n).mp (by simp)) p).mp hpred
    -- `p` comes after `n`, so `n` is not among those finished before `p` and leads back to it.
    have hlater : p ∈ later := by
      have hmem := (hmem p).mpr hp
      simp only [List.mem_append, List.mem_cons, List.mem_reverse, not_or] at hmem hnot
      grind
    obtain ⟨between, rest, rfl⟩ := List.append_of_mem hlater
    have hsettled := hsound.settled (earlier ++ n :: between) p rest (by simp) n hlink
    have hback : Reaches successors n p := by
      refine hsettled.2.resolve_left fun hrest => ?_
      exact (List.nodup_cons.mp (List.nodup_append.mp hsound.nodup_finished).2.1).1 (by simp [hrest])
    exact ⟨hp, Relation.TransGen.head' hlink hback⟩

/-- An order that is returned has every node once, after all of its predecessors. -/
theorem predecessorsFirst_of_eq_ok {order : List α}
    (h : predecessorsFirst successors predecessors nodes = .ok order) :
    order.Nodup ∧ (∀ n, n ∈ order ↔ n ∈ nodes) ∧ PredecessorsFirst predecessors order := by
  obtain ⟨hsearch, hnone⟩ := predecessorsFirst_eq_ok_iff.mp h
  have hspec := search_spec hclosed
  rw [hsearch] at hspec
  obtain ⟨hsound, hmem⟩ := hspec
  refine ⟨hsound.nodup_finished, hmem, fun earlier n later hsplit p hp => ?_⟩
  have hn : n ∈ nodes := (hmem n).mp (by simp [hsplit])
  have hbefore := firstLate?_eq_none_iff.mp hnone earlier n later hsplit p hp
  -- The check lets a node be its own predecessor, but the search does not.
  have hne : p ≠ n := by
    rintro rfl
    exact (hsound.settled earlier p later hsplit p ((hlinks p hn p).mp hp).2).1 rfl
  simpa [hne] using hbefore

/-- An order is returned exactly if no node is on a cycle. -/
theorem exists_predecessorsFirst_eq_ok_iff :
    (∃ order, predecessorsFirst successors predecessors nodes = .ok order) ↔
      ∀ n ∈ nodes, ¬ OnCycle successors n := by
  constructor
  · rintro ⟨order, h⟩ n hn
    obtain ⟨-, hmem, hfirst⟩ := predecessorsFirst_of_eq_ok hclosed hlinks h
    refine hfirst.not_onCycle (fun m hm k hk => ?_) (fun m hm p hp hlink => ?_) ((hmem n).mpr hn)
    · exact (hmem k).mpr (hclosed m ((hmem m).mp hm) k hk)
    · exact (hlinks m ((hmem m).mp hm) p).mpr ⟨(hmem p).mp hp, hlink⟩
  · intro hacyclic
    cases h : predecessorsFirst successors predecessors nodes with
    | ok order => exact ⟨order, rfl⟩
    | error p =>
      obtain ⟨hp, hcycle⟩ := onCycle_of_predecessorsFirst_eq_error hclosed hlinks h
      exact absurd hcycle (hacyclic p hp)

end PredecessorsFirst

end Schemata.Order
