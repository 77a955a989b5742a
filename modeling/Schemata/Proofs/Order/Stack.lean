import Schemata.Proofs.Order
import Schemata.Proofs.Result

/-!
# The order with stacks

`Order.predecessorsFirst` searches by recursion, and checks the list that it has found. The textbook way needs neither.
`Order.toposort` keeps the nodes to go on with on a stack: the node on top stays there while what it leads to is
searched, and is finished when it is on top again. Then it searches a second time, from the finished nodes in their order
and against the links: whatever is new behind the first node of such a search is on a cycle.

A link may be given more than once, and a node has its last link first. The turns of both loops come to an end whatever
the links: each of them discovers a node, or takes one from the stack. `toposort_eq` says that they come to what
`predecessorsFirst` gives.
-/

namespace Schemata.Order

variable {α : Type} [DecidableEq α] {successors predecessors : α → List α} {links : List (α × α)} {nodes : List α}
  {s t : Search α} {n : α}

/-! ### The loops -/

/-- The nodes that links lead to from a node, by the last link first. -/
def ahead (links : List (α × α)) (n : α) : List α :=
  ((links.filter fun link => link.1 = n).map Prod.snd).reverse

/-- The nodes that links to a node come from, by the last link first. -/
def behind (links : List (α × α)) (n : α) : List α :=
  ((links.filter fun link => link.2 = n).map Prod.fst).reverse

/-- Push those nodes on a stack that are not known, one after the other. -/
def push (known : List α) (ns stack : List α) : List α :=
  ns.foldl (fun stack n => if n ∈ known then stack else n :: stack) stack

/-- To discover a node is a step towards the end: fewer sources of links are left, or the node leads nowhere and fewer
nodes on the stack are left. -/
theorem remaining_push_lt (stack : List α) (hnew : n ∉ s.discovered) :
    Prod.Lex (· < ·) (Prod.Lex (· < ·) (· < ·))
      (remaining (links.map Prod.fst) { s with discovered := n :: s.discovered },
        (push (n :: s.discovered) (ahead links n) (n :: stack)).length,
        remaining (push (n :: s.discovered) (ahead links n) (n :: stack)) { s with discovered := n :: s.discovered })
      (remaining (links.map Prod.fst) s, (n :: stack).length, remaining (n :: stack) s) := by
  by_cases hsource : n ∈ links.map Prod.fst
  · exact .left _ _ (remaining_discover_lt hsource hnew)
  · have hnowhere : ahead links n = [] := by
      rw [ahead, List.filter_eq_nil_iff.mpr fun link hlink => ?_, List.map_nil, List.reverse_nil]
      exact fun h => hsource (List.mem_map.mpr ⟨link, hlink, of_decide_eq_true h⟩)
    rw [hnowhere, push, List.foldl_nil]
    have hle : remaining (links.map Prod.fst) { s with discovered := n :: s.discovered } ≤
        remaining (links.map Prod.fst) s := remaining_le_of_subset (List.subset_cons_self _ _)
    rcases hle.lt_or_eq with hlt | heq
    · exact .left _ _ hlt
    · rw [heq]
      exact .right _ (.right _ (remaining_discover_lt List.mem_cons_self hnew))

/-- Search with a stack until it is empty. A new node on top is discovered and stays, below those that it leads to; any
other is taken from the stack, and finished if it was not. A node that leads to itself ends the search. -/
def stackSearch (links : List (α × α)) (s : Search α) : List α → Except α (Search α)
  | [] => .ok s
  | n :: stack =>
    if n ∈ s.discovered then
      if n ∈ s.finished then stackSearch links s stack
      else stackSearch links { s with finished := n :: s.finished } stack
    else if n ∈ ahead links n then .error n
    else
      stackSearch links { s with discovered := n :: s.discovered }
        (push (n :: s.discovered) (ahead links n) (n :: stack))
termination_by stack => (remaining (links.map Prod.fst) s, stack.length, remaining stack s)
decreasing_by
  · exact .right _ (.left _ _ (Nat.lt_succ_self _))
  · exact .right _ (.left _ _ (Nat.lt_succ_self _))
  · exact remaining_push_lt _ ‹_›

/-- Search against the links until the stack is empty. A second new node ends the search. -/
def searchBack (incoming : α → List α) (discovered : List α) (again : Bool) : List α → Except α (List α)
  | [] => .ok discovered
  | n :: stack =>
    if n ∈ discovered then searchBack incoming discovered again stack
    else if again then .error n
    else searchBack incoming (n :: discovered) true (push (n :: discovered) (incoming n) stack)
termination_by stack => (if again then 0 else 1, stack.length)
decreasing_by
  · exact .right _ (Nat.lt_succ_self _)
  · exact .left _ _ (by simp [*])

/-- The nodes in the order of a search with a stack from each of them, the last finished first, if the search against the
links finds no cycle. -/
def toposort (links : List (α × α)) (nodes : List α) : Except α (List α) := do
  let s ← nodes.foldlM (fun s n => if n ∈ s.discovered then .ok s else stackSearch links s [n]) {}
  let _ ← s.finished.foldlM (fun discovered n => searchBack (behind links) discovered false [n]) []
  return s.finished

@[simp]
theorem reverse_ahead (links : List (α × α)) (n : α) :
    (ahead links n).reverse = (links.filter fun link => link.1 = n).map Prod.snd :=
  List.reverse_reverse _

@[simp]
theorem reverse_behind (links : List (α × α)) (n : α) :
    (behind links n).reverse = (links.filter fun link => link.2 = n).map Prod.fst :=
  List.reverse_reverse _

theorem push_eq (known ns stack : List α) :
    push known ns stack = (ns.reverse.filter fun n => n ∉ known) ++ stack := by
  induction ns generalizing stack with
  | nil => rfl
  | cons n ns ih =>
    rw [push, List.foldl_cons, ← push, ih, List.reverse_cons, List.filter_append, List.append_assoc]
    by_cases h : n ∈ known <;> simp [h]

/-! ### Nodes that need no visit -/

section Visits

variable {bound : Nat}

omit [DecidableEq α] in
/-- Steps one after the other forget no node if none of them does. -/
theorem subset_of_foldlM {f : Search α → α → Except α (Search α)}
    (hf : ∀ {s n t}, f s n = .ok t → s.discovered ⊆ t.discovered) (ns : List α) :
    ∀ {s t}, ns.foldlM f s = .ok t → s.discovered ⊆ t.discovered := by
  induction ns with
  | nil =>
    intro s t h
    exact Except.ok.inj h ▸ List.Subset.refl _
  | cons n ns ih =>
    intro s t h
    rw [List.foldlM_cons, bind_eq_ok_iff] at h
    obtain ⟨u, hu, ht⟩ := h
    exact List.Subset.trans (hf hu) (ih ht)

/-- A search forgets no node that it has come to. -/
theorem discovered_subset_of_visit (bound : Nat) :
    ∀ {s n t}, visit successors bound s n = .ok t → s.discovered ⊆ t.discovered := by
  induction bound with
  | zero =>
    intro s n t h
    exact Except.ok.inj h ▸ List.Subset.refl _
  | succ bound ih =>
    intro s n t h
    rw [visit] at h
    split_ifs at h
    · exact Except.ok.inj h ▸ List.Subset.refl _
    · rw [bind_eq_ok_iff] at h
      obtain ⟨u, hu, ht⟩ := h
      exact Except.ok.inj ht ▸ List.Subset.trans (List.subset_cons_self _ _) (subset_of_foldlM ih _ hu)

theorem visit_of_mem (h : n ∈ s.discovered) : visit successors bound s n = .ok s := by
  cases bound with
  | zero => rfl
  | succ bound => rw [visit, if_pos h]

/-- After a visit that has any step to go the node is discovered. -/
theorem mem_discovered_of_visit (h : visit successors (bound + 1) s n = .ok t) : n ∈ t.discovered := by
  rw [visit] at h
  split_ifs at h with hn
  · exact Except.ok.inj h ▸ hn
  · rw [bind_eq_ok_iff] at h
    obtain ⟨u, hu, ht⟩ := h
    exact Except.ok.inj ht ▸ subset_of_foldlM (discovered_subset_of_visit bound) _ hu List.mem_cons_self

/-- Nodes that have been discovered can be left out. -/
theorem foldlM_visit_filter (p : α → Bool) (ns : List α) :
    ∀ {s : Search α}, (∀ n ∈ ns, p n = false → n ∈ s.discovered) →
      (ns.filter p).foldlM (visit successors bound) s = ns.foldlM (visit successors bound) s := by
  induction ns with
  | nil => exact fun _ => rfl
  | cons n ns ih =>
    intro s h
    cases hp : p n with
    | false =>
      rw [List.filter_cons_of_neg (by simp [hp]), List.foldlM_cons, visit_of_mem (h n (by simp) hp)]
      exact ih fun m hm => h m (by simp [hm])
    | true =>
      rw [List.filter_cons_of_pos hp, List.foldlM_cons, List.foldlM_cons]
      cases hn : visit successors bound s n with
      | error q => rfl
      | ok t => exact ih fun m hm hq => discovered_subset_of_visit bound hn (h m (by simp [hm]) hq)

/-- So can nodes that are given again. -/
theorem foldlM_visit_eraseDups (ns : List α) (s : Search α) :
    ns.eraseDups.foldlM (visit successors bound) s = ns.foldlM (visit successors bound) s := by
  cases bound with
  | zero =>
    have hzero : ∀ ns : List α, ns.foldlM (visit successors 0) s = .ok s := fun ns => by
      induction ns with
      | nil => rfl
      | cons n ns ih => exact ih
    rw [hzero, hzero]
  | succ bound =>
    induction hlength : ns.length using Nat.strong_induction_on generalizing ns s with
    | _ length ih =>
      cases ns with
      | nil => rfl
      | cons n ns =>
        rw [List.eraseDups_cons, List.foldlM_cons, List.foldlM_cons]
        cases hn : visit successors (bound + 1) s n with
        | error q => rfl
        | ok t =>
          have hshorter : (ns.filter fun m => !m == n).length < length :=
            (Nat.lt_succ_of_le (List.length_filter_le _ _)).trans_eq hlength
          refine (ih _ hshorter _ t rfl).trans (foldlM_visit_filter _ _ fun m _ hm => ?_)
          obtain rfl : m = n := by simpa using hm
          exact mem_discovered_of_visit hn

end Visits

/-! ### The first search -/

section Stack

theorem stackSearch_nil : stackSearch links s [] = pure s := by
  rw [stackSearch]
  rfl

/-- A node on top that is not new is taken off. -/
theorem stackSearch_of_mem (stack : List α) (h : n ∈ s.finished) (hn : n ∈ s.discovered) :
    stackSearch links s (n :: stack) = stackSearch links s stack := by
  rw [stackSearch, if_pos hn, if_pos h]

/-- An open node on top is finished. -/
theorem stackSearch_of_open (stack : List α) (h : s.Open n) :
    stackSearch links s (n :: stack) = stackSearch links { s with finished := n :: s.finished } stack := by
  rw [stackSearch, if_pos h.1, if_neg h.2]

variable (hclosed : ∀ n ∈ nodes, ∀ m ∈ successors n, m ∈ nodes)
  (hout : ∀ n ∈ nodes, (ahead links n).reverse.eraseDups = successors n)

include hclosed

/-- Nodes on top of a stack are visited one after the other, if each of them is. -/
theorem stackSearch_append {bound : Nat}
    (hvisit : ∀ s n stack, s.Sound successors nodes → n ∈ nodes → (∀ x, s.Open x → Reaches successors x n) →
      remaining nodes s ≤ bound → ¬ s.Open n →
      stackSearch links s (n :: stack) = visit successors bound s n >>= fun t => stackSearch links t stack)
    (ns stack : List α) (hsound : s.Sound successors nodes) (hns : ∀ n ∈ ns, n ∈ nodes)
    (hopen : ∀ x, s.Open x → ∀ n ∈ ns, Reaches successors x n) (hbound : remaining nodes s ≤ bound)
    (hfresh : ∀ n ∈ ns, ¬ s.Open n) :
    stackSearch links s (ns ++ stack) =
      ns.foldlM (visit successors bound) s >>= fun t => stackSearch links t stack := by
  induction ns generalizing s with
  | nil => rfl
  | cons n ns ih =>
    have hn := covers_visit hclosed bound s n hsound (hns n (by simp)) (fun x hx => hopen x hx n (by simp)) hbound
    rw [List.cons_append, hvisit s n _ hsound (hns n (by simp)) (fun x hx => hopen x hx n (by simp)) hbound
      (hfresh n (by simp)), List.foldlM_cons]
    cases hresult : visit successors bound s n with
    | error p => rfl
    | ok t =>
      rw [hresult] at hn
      obtain ⟨ht, hst, -⟩ := hn
      -- The visit leaves open what was open, so the other nodes are as before.
      exact ih ht (fun m hm => hns m (by simp [hm]))
        (fun x hx m hm => hopen x ((hst.open_iff x).mp hx) m (by simp [hm]))
        ((remaining_le_of_subset hst.discovered).trans hbound)
        (fun m hm hx => hfresh m (by simp [hm]) ((hst.open_iff m).mp hx))

include hout

/-- A node on top of a stack is visited before the stack below it is looked at. -/
theorem stackSearch_cons (bound : Nat) :
    ∀ (s : Search α) (n : α) (stack : List α), s.Sound successors nodes → n ∈ nodes →
      (∀ x, s.Open x → Reaches successors x n) → remaining nodes s ≤ bound → ¬ s.Open n →
      stackSearch links s (n :: stack) = visit successors bound s n >>= fun t => stackSearch links t stack := by
  have hfinished : ∀ {s : Search α} {n}, ¬ s.Open n → n ∈ s.discovered → n ∈ s.finished := fun hopen hn => by
    by_contra h
    exact hopen ⟨hn, h⟩
  induction bound with
  | zero =>
    intro s n stack hsound hn _ hbound hfresh
    have hdiscovered : n ∈ s.discovered := by
      by_contra hnew
      exact absurd (remaining_pos hn hnew) (by omega)
    rw [stackSearch_of_mem stack (hfinished hfresh hdiscovered) hdiscovered]
    rfl
  | succ bound ih =>
    intro s n stack hsound hn hopen hbound hfresh
    have hmem : ∀ m, m ∈ ahead links n ↔ m ∈ successors n := fun m => by
      rw [← hout n hn, List.mem_eraseDups, List.mem_reverse]
    by_cases hdiscovered : n ∈ s.discovered
    · rw [stackSearch_of_mem stack (hfinished hfresh hdiscovered) hdiscovered, visit_of_mem hdiscovered]
      rfl
    by_cases hloop : n ∈ successors n
    · rw [stackSearch, if_neg hdiscovered, if_pos ((hmem n).mpr hloop), visit, if_neg hdiscovered, if_pos hloop]
      rfl
    rw [stackSearch, if_neg hdiscovered, if_neg (mt (hmem n).mp hloop), push_eq, visit, if_neg hdiscovered, if_neg hloop]
    have hunfinished : n ∉ s.finished := fun h => hdiscovered (hsound.finished_discovered n h)
    set entered : Search α := { s with discovered := n :: s.discovered } with hentered
    have hleads : ∀ x, entered.Open x → Reaches successors x n :=
      fun x hx => Search.reaches_of_open_discover hunfinished hopen hx
    have hpushed : ∀ m ∈ (ahead links n).reverse.filter fun m => m ∉ n :: s.discovered,
        m ∈ successors n ∧ m ∉ entered.discovered := by
      intro m hm
      rw [List.mem_filter, List.mem_reverse, decide_eq_true_eq] at hm
      exact ⟨(hmem m).mp hm.1, hm.2⟩
    have hfewer : remaining nodes entered ≤ bound :=
      Nat.le_of_lt_succ ((remaining_discover_lt hn hdiscovered).trans_le hbound)
    have hbelow := covers_foldlM (covers_visit hclosed bound) (successors n) (hsound.discover hn) (hclosed n hn)
      (fun x hx m hm => (hleads x hx).tail hm) hfewer
    rw [stackSearch_append hclosed ih _ _ (hsound.discover hn) (fun m hm => hclosed n hn m (hpushed m hm).1)
      (fun x hx m hm => (hleads x hx).tail (hpushed m hm).1) hfewer (fun m hm hx => (hpushed m hm).2 hx.1),
      foldlM_visit_filter _ _ (fun m _ hm => by simpa [or_iff_not_imp_left] using hm), ← foldlM_visit_eraseDups,
      hout n hn]
    cases hresult : (successors n).foldlM (visit successors bound) entered with
    | error p => rfl
    | ok t =>
      rw [hresult] at hbelow
      -- Nothing that stands above the node is left, and it is still open.
      have hn_open : t.Open n := (hbelow.2.1.open_iff n).mpr ((Search.open_discover hunfinished).mpr (.inr rfl))
      exact stackSearch_of_open stack hn_open

/-- The first search comes to what the recursion comes to. -/
theorem foldlM_stackSearch (ns : List α) (hns : ∀ n ∈ ns, n ∈ nodes) :
    ∀ {s : Search α}, s.Sound successors nodes → (∀ n, ¬ s.Open n) →
      ns.foldlM (fun s n => if n ∈ s.discovered then .ok s else stackSearch links s [n]) s =
        ns.foldlM (visit successors nodes.length) s := by
  induction ns with
  | nil => exact fun _ _ => rfl
  | cons n ns ih =>
    intro s hsound hnone
    have hbound : remaining nodes s ≤ nodes.length := (Finset.card_filter_le _ _).trans nodes.toFinset_card_le
    have hopen : ∀ x, s.Open x → Reaches successors x n := fun x hx => absurd hx (hnone x)
    have hfirst : (if n ∈ s.discovered then .ok s else stackSearch links s [n]) =
        visit successors nodes.length s n := by
      split_ifs with hn
      · rw [visit_of_mem hn]
      · rw [stackSearch_cons hclosed hout _ s n [] hsound (hns n (by simp)) hopen hbound (hnone n)]
        simp only [stackSearch_nil, bind_pure]
    rw [List.foldlM_cons, List.foldlM_cons, hfirst]
    have hn := covers_visit hclosed _ s n hsound (hns n (by simp)) hopen hbound
    cases hresult : visit successors nodes.length s n with
    | error p => rfl
    | ok t =>
      rw [hresult] at hn
      exact ih (fun m hm => hns m (by simp [hm])) hn.1 fun m hm => hnone m ((hn.2.1.open_iff m).mp hm)

end Stack

/-! ### The second search -/

section Back

variable {incoming : α → List α}

/-- Once a node was new, the next new one ends the search. -/
theorem searchBack_again (discovered stack : List α) :
    searchBack incoming discovered true stack =
      match stack.find? fun n => n ∉ discovered with
      | some n => .error n
      | none => .ok discovered := by
  induction stack with
  | nil => rw [searchBack, List.find?_nil]
  | cons n stack ih =>
    by_cases hn : n ∈ discovered
    · rw [searchBack, if_pos hn, ih, List.find?_cons_of_neg (by simpa using hn)]
    · rw [searchBack, if_neg hn, if_pos rfl, List.find?_cons_of_pos (by simpa using hn)]

/-- From a new node, the search ends with the first link from a node that has not come before. -/
theorem searchBack_singleton {discovered : List α} (hn : n ∉ discovered) :
    searchBack incoming discovered false [n] =
      match (incoming n).reverse.find? fun p => p ∉ n :: discovered with
      | some p => .error p
      | none => .ok (n :: discovered) := by
  have hfind : ((incoming n).reverse.filter fun p => p ∉ n :: discovered).find? (fun p => p ∉ n :: discovered) =
      (incoming n).reverse.find? fun p => p ∉ n :: discovered := by
    rw [List.find?_filter]
    congr 1
    funext p
    simp
  rw [searchBack, if_neg hn, if_neg Bool.false_ne_true, push_eq, List.append_nil, searchBack_again, hfind]

/-- The second search finds the first violation of the order. -/
theorem foldlM_searchBack (hin : ∀ n ∈ nodes, (incoming n).reverse = predecessors n) (order : List α) :
    ∀ discovered : List α, (∀ n ∈ order, n ∈ nodes) → order.Nodup → (∀ n ∈ order, n ∉ discovered) →
      order.foldlM (fun discovered n => searchBack incoming discovered false [n]) discovered =
        match firstLate? predecessors discovered order with
        | some p => .error p
        | none => .ok (order.reverse ++ discovered) := by
  induction order with
  | nil => exact fun _ _ _ _ => rfl
  | cons n order ih =>
    intro discovered hnodes hnodup hnew
    obtain ⟨hn, hnodup⟩ := List.nodup_cons.mp hnodup
    rw [List.foldlM_cons, searchBack_singleton (hnew n (by simp)), hin n (hnodes n (by simp)), firstLate?]
    cases (predecessors n).find? fun p => p ∉ n :: discovered with
    | some p => rfl
    | none =>
      have hrest := ih (n :: discovered) (fun m hm => hnodes m (by simp [hm])) hnodup
        fun m hm hmem => (List.mem_cons.mp hmem).elim (fun h => hn (h ▸ hm)) (hnew m (by simp [hm]))
      rw [List.reverse_cons, List.append_assoc, List.singleton_append]
      exact hrest

end Back

/-- **The order with stacks.** The loops give the order that `predecessorsFirst` gives, or refuse the node that it
refuses, even if links are given more than once. -/
theorem toposort_eq (hclosed : ∀ n ∈ nodes, ∀ m ∈ successors n, m ∈ nodes)
    (hahead : ∀ n ∈ nodes, (ahead links n).reverse.eraseDups = successors n)
    (hbehind : ∀ n ∈ nodes, (behind links n).reverse = predecessors n) :
    toposort links nodes = predecessorsFirst successors predecessors nodes := by
  have hspec := search_spec hclosed
  have hempty : Search.Sound successors nodes {} :=
    ⟨by simp, by simp, List.nodup_nil, by simp⟩
  rw [toposort, foldlM_stackSearch hclosed hahead nodes (fun _ hn => hn) hempty fun n hn => List.not_mem_nil hn.1,
    predecessorsFirst, search]
  rw [search] at hspec
  cases hresult : nodes.foldlM (visit successors nodes.length) {} with
  | error n => rfl
  | ok t =>
    rw [hresult] at hspec
    obtain ⟨hsound, hmem⟩ := hspec
    have hback := foldlM_searchBack hbehind t.finished [] (fun n hn => (hmem n).mp hn) hsound.nodup_finished
      fun _ _ => List.not_mem_nil
    change (t.finished.foldlM (fun discovered n => searchBack (behind links) discovered false [n]) [] >>=
      fun _ => .ok t.finished) =
        match firstLate? predecessors [] t.finished with
        | some p => .error p
        | none => .ok t.finished
    rw [hback]
    cases firstLate? predecessors [] t.finished <;> rfl

end Schemata.Order
