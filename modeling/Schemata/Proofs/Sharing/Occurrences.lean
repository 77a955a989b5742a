import Mathlib.Data.List.Infix
import Schemata.Sharing

/-!
# Where the nodes of an unfolded tree stand

The occurrences of a tree are laid out in one list, every occurrence before those below it. What a sweep relies on
is gathered in `Sharing.Layout`:

* an occurrence has its parent earlier in the list, and its node is a child of the parent's node;
* occurrences with one parent stand in the order of the children;
* what stands between an occurrence and one of its children is below that occurrence.

`Linked.layout_occurrences` says that the occurrences of every graph are laid out in this way. The tree of
fingerprints below a node (`Linked.pattern`) is what digests are meant to tell apart: `Linked.Discerning` says that
they do, among the occurrences below one node.
-/

open scoped List

namespace Schemata.Sharing

variable {ν ν' σ : Type}

namespace Tree

/-! ### Comparing trees -/

mutual

/-- Whether two trees are equal. -/
def decEq [DecidableEq ν] : (s t : Tree ν) → Decidable (s = t)
  | .node a ss, .node b ts =>
    match decidable_of_iff (a = b) Iff.rfl, decEqAll ss ts with
    | .isTrue hlabel, .isTrue hchildren => .isTrue (by rw [hlabel, hchildren])
    | .isFalse hlabel, _ => .isFalse fun h => hlabel (Tree.node.inj h).1
    | _, .isFalse hchildren => .isFalse fun h => hchildren (Tree.node.inj h).2

/-- Whether two sequences of trees are equal. -/
def decEqAll [DecidableEq ν] : (ss ts : List (Tree ν)) → Decidable (ss = ts)
  | [], [] => .isTrue rfl
  | [], _ :: _ => .isFalse fun h => nomatch h
  | _ :: _, [] => .isFalse fun h => nomatch h
  | s :: ss, t :: ts =>
    match decEq s t, decEqAll ss ts with
    | .isTrue hhead, .isTrue htail => .isTrue (by rw [hhead, htail])
    | .isFalse hhead, _ => .isFalse fun h => hhead (List.cons.inj h).1
    | _, .isFalse htail => .isFalse fun h => htail (List.cons.inj h).2

end

instance [DecidableEq ν] : DecidableEq (Tree ν) :=
  decEq

/-! ### Relabelling a tree -/

mutual

/-- A tree with its labels replaced. -/
def map (f : ν → ν') : Tree ν → Tree ν'
  | .node n ts => .node (f n) (mapAll f ts)

/-- Several trees with their labels replaced. -/
def mapAll (f : ν → ν') : List (Tree ν) → List (Tree ν')
  | [] => []
  | t :: ts => t.map f :: mapAll f ts

end

theorem mapAll_eq_map (f : ν → ν') (ts : List (Tree ν)) : mapAll f ts = ts.map (map f) := by
  induction ts with
  | nil => rfl
  | cons t ts ih => rw [mapAll, ih, List.map_cons]

@[simp]
theorem map_node (f : ν → ν') (n : ν) (ts : List (Tree ν)) :
    (Tree.node n ts).map f = .node (f n) (ts.map (map f)) := by
  rw [map, mapAll_eq_map]

@[simp]
theorem label_map (f : ν → ν') (t : Tree ν) : (t.map f).label = f t.label := by
  cases t
  simp [label]

@[simp]
theorem label_unfold (children : ν → List ν) (bound : Nat) (n : ν) : (unfold children bound n).label = n := by
  cases bound <;> rfl

mutual

/-- Digests are added to the labels of a tree; the labels themselves stay. -/
theorem map_fst_withDigests (fingerprint : ν → String) (t : Tree ν) (h : Hasher) :
    (t.withDigests fingerprint h).1.map Prod.fst = t := by
  cases t with
  | node n ts =>
    rw [withDigests]
    exact (map_node _ _ _).trans (congrArg (Tree.node n) (map_fst_withDigestsAll fingerprint ts h))

theorem map_fst_withDigestsAll (fingerprint : ν → String) (ts : List (Tree ν)) (h : Hasher) :
    (withDigestsAll fingerprint ts h).1.map (map Prod.fst) = ts := by
  cases ts with
  | nil => rfl
  | cons t ts =>
    rw [withDigestsAll]
    exact congrArg₂ List.cons (map_fst_withDigests fingerprint t h)
      (map_fst_withDigestsAll fingerprint ts (t.withDigests fingerprint h).2)

end

end Tree

/-! ### Layouts -/

/-- Occurrences in order, the first at position `index`: those without a parent among them have the parent `parent`
and the nodes `roots`, and all others are children of earlier ones. -/
structure Layout (children : ν → List ν) (index : Nat) (parent : Option Nat) (roots : List ν)
    (cells : List (Cell ν)) : Prop where
  /-- An occurrence is one of the roots, or a child of an earlier occurrence. -/
  link : ∀ (r : Nat) (cell : Cell ν), cells[r]? = some cell →
    (cell.parent = parent ∧ cell.node ∈ roots) ∨
      ∃ q holder, q < r ∧ cell.parent = some (index + q) ∧ cells[q]? = some holder ∧
        cell.node ∈ children holder.node
  /-- The roots stand in order. -/
  roots_sublist : ∀ (r s : Nat) (a b : Cell ν), r < s → cells[r]? = some a → cells[s]? = some b → a.parent = parent →
    b.parent = parent → [a.node, b.node] <+ roots
  /-- The children of an occurrence stand in order. -/
  children_sublist : ∀ (r s q : Nat) (a b holder : Cell ν), r < s → cells[r]? = some a → cells[s]? = some b →
    cells[q]? = some holder → a.parent = some (index + q) → b.parent = some (index + q) →
    [a.node, b.node] <+ children holder.node
  /-- Between an occurrence and a child of it there are only occurrences below it. -/
  nested : ∀ (r q s : Nat) (a b : Cell ν), q < s → s ≤ r → cells[r]? = some a → cells[s]? = some b →
    a.parent = some (index + q) → ∃ u, q ≤ u ∧ b.parent = some (index + u)

namespace Layout

variable {children : ν → List ν} {index : Nat} {parent : Option Nat}

theorem nil (children : ν → List ν) (index : Nat) (parent : Option Nat) : Layout children index parent [] [] where
  link r cell h := by simp at h
  roots_sublist r s a b _ h := by simp at h
  children_sublist r s q a b holder _ h := by simp at h
  nested r q s a b _ _ h := by simp at h

/-- A node on top of a layout of its children. -/
theorem cons {roots : List ν} {cells : List (Cell ν)} {n : ν} {d : Digest}
    (h : Layout children (index + 1) (some index) roots cells) (hroots : roots <+ children n)
    (hparent : ∀ p, parent = some p → p < index) :
    Layout children index parent [n] (⟨n, parent, d⟩ :: cells) := by
  -- an occurrence below the top one has a parent, which is not the parent of the top one
  have hbelow : ∀ (r : Nat) (cell : Cell ν), cells[r]? = some cell → cell.parent ≠ parent := by
    intro r cell hcell heq
    rcases h.link r cell hcell with ⟨hp, -⟩ | ⟨q, -, -, hp, -⟩
    · exact absurd (hparent index (heq.symm.trans hp)) (lt_irrefl _)
    · exact absurd (hparent _ (heq.symm.trans hp)) (by omega)
  refine ⟨fun r cell hcell => ?_, fun r s a b hrs ha hb hpa hpb => ?_,
    fun r s q a b holder hrs ha hb hq hpa hpb => ?_, fun r q s a b hqs hsr ha hb hpa => ?_⟩
  · cases r with
    | zero =>
      obtain rfl : (⟨n, parent, d⟩ : Cell ν) = cell := by simpa using hcell
      exact Or.inl ⟨rfl, List.mem_singleton.mpr rfl⟩
    | succ r =>
      rw [List.getElem?_cons_succ] at hcell
      rcases h.link r cell hcell with ⟨hp, hmem⟩ | ⟨q, holder, hqr, hp, hq, hmem⟩
      · exact Or.inr ⟨0, _, by omega, hp, rfl, hroots.subset hmem⟩
      · exact Or.inr ⟨q + 1, holder, by omega, by rw [hp]; congr 1; omega, by simpa using hq, hmem⟩
  · obtain ⟨s, rfl⟩ : ∃ s', s = s' + 1 := ⟨s - 1, by omega⟩
    exact absurd hpb (hbelow s b (by simpa using hb))
  · obtain ⟨s, rfl⟩ : ∃ s', s = s' + 1 := ⟨s - 1, by omega⟩
    cases r with
    | zero =>
      obtain rfl : (⟨n, parent, d⟩ : Cell ν) = a := by simpa using ha
      exact absurd (hparent _ hpa) (by omega)
    | succ r =>
      rw [List.getElem?_cons_succ] at ha hb
      cases q with
      | zero =>
        obtain rfl : (⟨n, parent, d⟩ : Cell ν) = holder := by simpa using hq
        exact (h.roots_sublist r s a b (by omega) ha hb hpa hpb).trans hroots
      | succ q =>
        rw [List.getElem?_cons_succ] at hq
        exact h.children_sublist r s q a b holder (by omega) ha hb hq
          (by rw [hpa]; congr 1; omega) (by rw [hpb]; congr 1; omega)
  · obtain ⟨s, rfl⟩ : ∃ s', s = s' + 1 := ⟨s - 1, by omega⟩
    obtain ⟨r, rfl⟩ : ∃ r', r = r' + 1 := ⟨r - 1, by omega⟩
    rw [List.getElem?_cons_succ] at ha hb
    cases q with
    | zero =>
      rcases h.link s b hb with ⟨hp, -⟩ | ⟨u, -, -, hp, -⟩
      · exact ⟨0, le_refl _, hp⟩
      · exact ⟨u + 1, by omega, by rw [hp]; congr 1; omega⟩
    | succ q =>
      obtain ⟨u, hqu, hp⟩ := h.nested r q s a b (by omega) (by omega) ha hb (by rw [hpa]; congr 1; omega)
      exact ⟨u + 1, by omega, by rw [hp]; congr 1; omega⟩

/-- Two layouts with one parent side by side. -/
theorem append {roots roots' : List ν} {cells cells' : List (Cell ν)}
    (h : Layout children index parent roots cells)
    (h' : Layout children (index + cells.length) parent roots' cells')
    (hparent : ∀ p, parent = some p → p < index) :
    Layout children index parent (roots ++ roots') (cells ++ cells') := by
  have hleft : ∀ {r : Nat} {cell : Cell ν}, (cells ++ cells')[r]? = some cell → r < cells.length → cells[r]? = some cell :=
    fun hcell hr => by rwa [List.getElem?_append_left hr] at hcell
  have hright : ∀ {r : Nat} {cell : Cell ν}, (cells ++ cells')[r]? = some cell → cells.length ≤ r →
      cells'[r - cells.length]? = some cell :=
    fun hcell hr => by rwa [List.getElem?_append_right hr] at hcell
  -- a parent inside one part belongs to an occurrence of that part
  have hpleft : ∀ {r u : Nat} {cell : Cell ν}, cells[r]? = some cell → cell.parent = some (index + u) → u < r := by
    intro r u cell hcell hp
    rcases h.link r cell hcell with ⟨hp', -⟩ | ⟨q, -, hq, hp', -⟩
    · exact absurd (hparent _ (hp'.symm.trans hp)) (by omega)
    · have := Option.some.inj (hp'.symm.trans hp)
      omega
  have hpright : ∀ {r u : Nat} {cell : Cell ν}, cells'[r]? = some cell → cell.parent = some (index + u) →
      cells.length ≤ u := by
    intro r u cell hcell hp
    rcases h'.link r cell hcell with ⟨hp', -⟩ | ⟨q, -, hq, hp', -⟩
    · exact absurd (hparent _ (hp'.symm.trans hp)) (by omega)
    · have := Option.some.inj (hp'.symm.trans hp)
      omega
  refine ⟨fun r cell hcell => ?_, fun r s a b hrs ha hb hpa hpb => ?_,
    fun r s q a b holder hrs ha hb hq hpa hpb => ?_, fun r q s a b hqs hsr ha hb hpa => ?_⟩
  · rcases Nat.lt_or_ge r cells.length with hr | hr
    · rcases h.link r cell (hleft hcell hr) with ⟨hp, hmem⟩ | ⟨q, holder, hqr, hp, hq, hmem⟩
      · exact Or.inl ⟨hp, List.mem_append_left _ hmem⟩
      · exact Or.inr ⟨q, holder, hqr, hp, by rwa [List.getElem?_append_left (by omega)], hmem⟩
    · rcases h'.link _ cell (hright hcell hr) with ⟨hp, hmem⟩ | ⟨q, holder, hqr, hp, hq, hmem⟩
      · exact Or.inl ⟨hp, List.mem_append_right _ hmem⟩
      · refine Or.inr ⟨cells.length + q, holder, by omega, by rw [hp]; congr 1; omega, ?_, hmem⟩
        rw [List.getElem?_append_right (by omega)]
        simpa using hq
  · rcases Nat.lt_or_ge r cells.length with hr | hr
    · rcases Nat.lt_or_ge s cells.length with hs | hs
      · exact (h.roots_sublist r s a b hrs (hleft ha hr) (hleft hb hs) hpa hpb).trans
          (List.sublist_append_left _ _)
      · -- the two roots come from different parts
        have hma : a.node ∈ roots := by
          rcases h.link r a (hleft ha hr) with ⟨-, hmem⟩ | ⟨q, -, -, hp, -⟩
          · exact hmem
          · exact absurd (hparent _ (hpa.symm.trans hp)) (by omega)
        have hmb : b.node ∈ roots' := by
          rcases h'.link _ b (hright hb hs) with ⟨-, hmem⟩ | ⟨q, -, -, hp, -⟩
          · exact hmem
          · exact absurd (hparent _ (hpb.symm.trans hp)) (by omega)
        exact (List.singleton_sublist.mpr hma).append (List.singleton_sublist.mpr hmb)
    · exact (h'.roots_sublist _ _ a b (by omega) (hright ha hr) (hright hb (by omega)) hpa hpb).trans
        (List.sublist_append_right _ _)
  · rcases Nat.lt_or_ge q cells.length with hql | hql
    · have hr : r < cells.length := by
        by_contra hr
        have := hpright (hright ha (by omega)) hpa
        omega
      have hs : s < cells.length := by
        by_contra hs
        have := hpright (hright hb (by omega)) hpb
        omega
      exact h.children_sublist r s q a b holder hrs (hleft ha hr) (hleft hb hs) (hleft hq hql) hpa hpb
    · have hr : cells.length ≤ r := by
        by_contra hr
        have := hpleft (hleft ha (by omega)) hpa
        omega
      exact h'.children_sublist _ _ _ a b holder (by omega) (hright ha hr) (hright hb (by omega))
        (hright hq hql) (by rw [hpa]; congr 1; omega) (by rw [hpb]; congr 1; omega)
  · rcases Nat.lt_or_ge r cells.length with hr | hr
    · exact h.nested r q s a b hqs hsr (hleft ha hr) (hleft hb (by omega)) hpa
    · have hql := hpright (hright ha hr) hpa
      obtain ⟨u, hu, hp⟩ := h'.nested _ (q - cells.length) (s - cells.length) a b (by omega) (by omega)
        (hright ha hr) (hright hb (by omega)) (by rw [hpa]; congr 1; omega)
      exact ⟨cells.length + u, by omega, by rw [hp]; congr 1; omega⟩

end Layout

/-! ### The layout of an unfolded tree -/

private theorem layout_cellsAll {children : ν → List ν} {bound : Nat}
    (ih : ∀ (n : ν) (t : Tree (ν × Digest)) (parent : Option Nat) (index : Nat),
      t.map Prod.fst = Tree.unfold children bound n → (∀ p, parent = some p → p < index) →
        Layout children index parent [n] (cells parent index t))
    (ns : List ν) : ∀ (ts : List (Tree (ν × Digest))) (parent index : Nat),
      ts.map (Tree.map Prod.fst) = ns.map (Tree.unfold children bound) → parent < index →
        Layout children index (some parent) ns (cellsAll parent index ts) := by
  induction ns with
  | nil =>
    intro ts parent index hts hlt
    obtain rfl : ts = [] := by simpa using hts
    exact Layout.nil _ _ _
  | cons n ns ihns =>
    intro ts parent index hts hlt
    obtain ⟨t, rest, rfl⟩ : ∃ t rest, ts = t :: rest := by
      cases ts with
      | nil => simp at hts
      | cons t rest => exact ⟨t, rest, rfl⟩
    rw [List.map_cons, List.map_cons, List.cons.injEq] at hts
    have hparent : ∀ p, some parent = some p → p < index := fun p hp => Option.some.inj hp ▸ hlt
    exact Layout.append (ih n t (some parent) index hts.1 hparent)
      (ihns rest parent _ hts.2 (by omega)) hparent

private theorem layout_cells {children : ν → List ν} (bound : Nat) :
    ∀ (n : ν) (t : Tree (ν × Digest)) (parent : Option Nat) (index : Nat),
      t.map Prod.fst = Tree.unfold children bound n → (∀ p, parent = some p → p < index) →
        Layout children index parent [n] (cells parent index t) := by
  induction bound with
  | zero =>
    rintro n ⟨⟨m, d⟩, ts⟩ parent index ht hparent
    simp only [Tree.map_node, Tree.unfold, Tree.node.injEq, List.map_eq_nil_iff] at ht
    obtain ⟨rfl, rfl⟩ := ht
    exact Layout.cons (Layout.nil _ _ _) (List.nil_sublist _) hparent
  | succ bound ih =>
    rintro n ⟨⟨m, d⟩, ts⟩ parent index ht hparent
    simp only [Tree.map_node, Tree.unfold, Tree.node.injEq] at ht
    obtain ⟨rfl, hts⟩ := ht
    exact Layout.cons (layout_cellsAll ih _ ts index (index + 1) hts (by omega)) (List.Sublist.refl _) hparent

namespace Linked

variable (L : Linked σ ν) (g : σ)

/-- The occurrences of the tree below a node, in order. -/
def occurrences (root : ν) : Array (Cell ν) :=
  Sharing.occurrences (L.fingerprint g) (L.tree g root)

/-- The occurrences below a node are laid out along the children of the graph. -/
theorem layout_occurrences (root : ν) :
    Layout (L.children g) 0 none [root] (L.occurrences g root).toList := by
  rw [occurrences, Sharing.occurrences, List.toList_toArray]
  exact layout_cells (L.bound g) root _ none 0 (Tree.map_fst_withDigests _ _ _) (fun p hp => nomatch hp)

/-! ### Trees of fingerprints -/

/-- The tree of the fingerprints below a node. -/
def pattern (n : ν) : Tree String :=
  (L.tree g n).map (L.fingerprint g)

/-- The digests tell the trees of fingerprints apart: occurrences below `root` with equal digests have nodes with
equal trees of fingerprints. -/
def Discerning (root : ν) : Prop :=
  ∀ a ∈ L.occurrences g root, ∀ b ∈ L.occurrences g root, a.digest = b.digest →
    L.pattern g a.node = L.pattern g b.node

variable {L g}

instance (root : ν) : Decidable (L.Discerning g root) :=
  inferInstanceAs (Decidable (∀ a ∈ L.occurrences g root, ∀ b ∈ L.occurrences g root, _ → _))

/-- Equal trees of fingerprints have equal fingerprints at the root. -/
theorem fingerprint_eq_of_pattern_eq {m n : ν} (h : L.pattern g m = L.pattern g n) :
    L.fingerprint g m = L.fingerprint g n := by
  have hlabel := congrArg Tree.label h
  simpa [pattern, tree] using hlabel

end Linked

end Schemata.Sharing
