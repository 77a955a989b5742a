import Schemata.Proofs.Sharing.Digests

/-!
# Hashing in a reverse sweep

`Tree.withDigests` hashes a tree by recursion. A tree can as well be pushed onto an arena first, every node before those
below it and with the positions of its children (`push`, `entries`). Then one sweep from the last entry to the first
hashes each entry from the digests of its children, which the sweep has come past already (`hashArena`).

`yields_hashArena` says that the sweep gives every entry the digest of its subtree, whatever was hashed before, and
`occurrences_eq_arena` that the occurrences of a tree are the entries of its arena with these digests.
-/

namespace Schemata.Sharing

open Hashing (Yields yields_digest yields_join)

variable {ν : Type}

/-! ### The arena -/

/-- A node in an arena. -/
structure Entry (ν : Type) where
  /-- The node. -/
  node : ν
  /-- The position of the entry it is a child of. -/
  parent : Option Nat
  /-- The positions of its children, in order. -/
  children : List Nat
deriving DecidableEq, Repr

mutual

/-- The entries of a tree whose root is at position `index`, each before those below it. -/
def entries (parent : Option Nat) (index : Nat) : Tree ν → List (Entry ν)
  | .node n ts =>
    let (positions, below) := entriesAll index (index + 1) ts
    ⟨n, parent, positions⟩ :: below

/-- The entries of the subtrees below position `parent`, the first at position `index`, and where the subtrees start. -/
def entriesAll (parent index : Nat) : List (Tree ν) → List Nat × List (Entry ν)
  | [] => ([], [])
  | t :: ts =>
    let head := entries (some parent) index t
    let (positions, rest) := entriesAll parent (index + head.length) ts
    (index :: positions, head ++ rest)

end

/-- Note positions of further children. -/
def Entry.note (entry : Entry ν) (positions : List Nat) : Entry ν :=
  { entry with children := entry.children ++ positions }

mutual

/-- Push a tree onto an arena: its root, and then the subtrees. -/
def push (arena : Array (Entry ν)) (parent : Option Nat) : Tree ν → Array (Entry ν)
  | .node n ts => pushAll (arena.push ⟨n, parent, []⟩) arena.size ts

/-- Push subtrees one after the other, and note each as a child once it is there. -/
def pushAll (arena : Array (Entry ν)) (parent : Nat) : List (Tree ν) → Array (Entry ν)
  | [] => arena
  | t :: ts => pushAll ((push arena (some parent) t).modify parent (·.note [arena.size])) parent ts

end

/-- The digest of an entry, from those in the arena for its children. -/
def hashEntry (fingerprint : ν → String) (opening comma closing : Digest) (values : Array Digest) (entry : Entry ν) :
    Hashing Digest := do
  let opened ← Hasher.join (← Hasher.digest (fingerprint entry.node)) opening
  let joined ← entry.children.foldlM
    (fun value child => do Hasher.join (← Hasher.join value (values.getD child {})) comma) opened
  Hasher.join joined closing

/-- Set the digest of one entry of an arena. -/
def hashAt (fingerprint : ν → String) (opening comma closing : Digest) (arena : Array (Entry ν)) (values : Array Digest)
    (index : Nat) : Hashing (Array Digest) :=
  match arena[index]? with
  | some entry => return values.setIfInBounds index (← hashEntry fingerprint opening comma closing values entry)
  | none => return values

/-- The digests of the entries of an arena, set from the last to the first. -/
def hashArena (fingerprint : ν → String) (arena : Array (Entry ν)) : Hashing (Array Digest) := do
  let opening ← Hasher.digest "("
  let comma ← Hasher.digest ","
  let closing ← Hasher.digest ")"
  (List.range arena.size).reverse.foldlM (hashAt fingerprint opening comma closing arena)
    (Array.replicate arena.size {})

/-! ### What is pushed -/

@[simp]
theorem Entry.note_nil (entry : Entry ν) : entry.note [] = entry := by
  rw [note, List.append_nil]

@[simp]
theorem Entry.note_note (entry : Entry ν) (ps qs : List Nat) : (entry.note ps).note qs = entry.note (ps ++ qs) := by
  simp [note]

theorem modify_append_of_lt {α : Type} (f : α → α) {front : List α} {i : Nat} (hi : i < front.length) (back : List α) :
    (front ++ back).modify i f = front.modify i f ++ back := by
  induction front generalizing i with
  | nil => cases hi
  | cons x front ih =>
    cases i with
    | zero => rfl
    | succ i =>
      rw [List.cons_append, List.modify_succ_cons, List.modify_succ_cons, ih (Nat.lt_of_succ_lt_succ hi),
        List.cons_append]

mutual

/-- A tree that is pushed onto an arena is there with its entries. -/
theorem toList_push (t : Tree ν) (arena : Array (Entry ν)) (parent : Option Nat) :
    (push arena parent t).toList = arena.toList ++ entries parent arena.size t := by
  cases t with
  | node n ts =>
    have hroot : ∀ (root : Entry ν) (ps : List Nat),
        (arena.toList ++ [root]).modify arena.size (·.note ps) = arena.toList ++ [root.note ps] := fun root ps => by
      rw [List.modify_eq_take_cons_drop (by simp)]
      simp
    rw [push, toList_pushAll ts _ arena.size (by simp), entries, Array.size_push, Array.toList_push, hroot,
      List.append_assoc]
    rfl

theorem toList_pushAll (ts : List (Tree ν)) (arena : Array (Entry ν)) (parent : Nat) (hparent : parent < arena.size) :
    (pushAll arena parent ts).toList =
      arena.toList.modify parent (·.note (entriesAll parent arena.size ts).1) ++
        (entriesAll parent arena.size ts).2 := by
  cases ts with
  | nil =>
    have hnone : (·.note [] : Entry ν → Entry ν) = id := funext Entry.note_nil
    rw [pushAll, entriesAll, List.append_nil, hnone, List.modify_id]
  | cons t ts =>
    have hlist : ((push arena (some parent) t).modify parent (·.note [arena.size])).toList =
        arena.toList.modify parent (·.note [arena.size]) ++ entries (some parent) arena.size t := by
      rw [Array.toList_modify, toList_push t arena (some parent), modify_append_of_lt _ (by simpa using hparent)]
    have hsize : ((push arena (some parent) t).modify parent (·.note [arena.size])).size =
        arena.size + (entries (some parent) arena.size t).length := by
      rw [← Array.length_toList, hlist]
      simp
    rw [pushAll, toList_pushAll ts _ parent (by omega), hlist, hsize, modify_append_of_lt _ (by simpa using hparent),
      List.modify_modify_eq, List.append_assoc, entriesAll]
    simp [Function.comp_def]

end

/-- The arena of a tree. -/
theorem push_empty (t : Tree ν) : push #[] none t = (entries none 0 t).toArray :=
  Array.toList_inj.mp (toList_push t #[] none)

/-! ### Entries and occurrences -/

namespace Tree

/-- The digest of a node, from those of its children. -/
def digestFrom (fingerprint : ν → String) (n : ν) (ds : List Digest) : Digest :=
  (ds.foldl (fun start d => (start.append d).append (.ofText ","))
    ((Digest.ofText (fingerprint n)).append (.ofText "("))).append (.ofText ")")

end Tree

/-- Entries stand beside occurrences, the first at position `index`: of the same nodes below the same parents, and with
children behind them whose digests tell that of the occurrence. -/
structure Beside (fingerprint : ν → String) (index : Nat) (entries : List (Entry ν)) (cells : List (Cell ν)) : Prop where
  length_eq : entries.length = cells.length
  told : ∀ (r : Nat) (entry : Entry ν) (cell : Cell ν), entries[r]? = some entry → cells[r]? = some cell →
    entry.node = cell.node ∧ entry.parent = cell.parent ∧
      ∃ ds, cell.digest = Tree.digestFrom fingerprint cell.node ds ∧
        List.Forall₂ (fun position d => ∃ k, position = index + k ∧ r < k ∧ (cells[k]?).map Cell.digest = some d)
          entry.children ds

namespace Beside

variable {fingerprint : ν → String} {index : Nat}

theorem nil (fingerprint : ν → String) (index : Nat) : Beside fingerprint index [] [] :=
  ⟨rfl, by simp⟩

/-- A node on top of its children. -/
theorem cons {below : List (Entry ν)} {cells : List (Cell ν)} (h : Beside fingerprint (index + 1) below cells) {n : ν}
    {parent : Option Nat} {positions : List Nat} {ds : List Digest}
    (hpositions : List.Forall₂ (fun position d => ∃ k, position = index + 1 + k ∧ (cells[k]?).map Cell.digest = some d)
      positions ds) :
    Beside fingerprint index (⟨n, parent, positions⟩ :: below)
      (⟨n, parent, Tree.digestFrom fingerprint n ds⟩ :: cells) := by
  refine ⟨by simp [h.length_eq], fun r entry cell hentry hcell => ?_⟩
  cases r with
  | zero =>
    obtain rfl := Option.some.inj hentry
    obtain rfl := Option.some.inj hcell
    refine ⟨rfl, rfl, ds, rfl, hpositions.imp ?_⟩
    rintro position d ⟨k, rfl, hk⟩
    exact ⟨k + 1, by omega, by omega, hk⟩
  | succ r =>
    obtain ⟨hnode, hparent, ds, hdigest, hchildren⟩ := h.told r entry cell hentry hcell
    refine ⟨hnode, hparent, ds, hdigest, hchildren.imp ?_⟩
    rintro position d ⟨k, rfl, hrk, hk⟩
    exact ⟨k + 1, by omega, by omega, hk⟩

/-- Trees side by side. -/
theorem append {front back : List (Entry ν)} {cells cells' : List (Cell ν)} (h : Beside fingerprint index front cells)
    (h' : Beside fingerprint (index + front.length) back cells') :
    Beside fingerprint index (front ++ back) (cells ++ cells') := by
  refine ⟨by simp [h.length_eq, h'.length_eq], fun r entry cell hentry hcell => ?_⟩
  rcases Nat.lt_or_ge r front.length with hr | hr
  · rw [List.getElem?_append_left hr] at hentry
    rw [List.getElem?_append_left (h.length_eq ▸ hr)] at hcell
    obtain ⟨hnode, hparent, ds, hdigest, hchildren⟩ := h.told r entry cell hentry hcell
    refine ⟨hnode, hparent, ds, hdigest, hchildren.imp ?_⟩
    rintro position d ⟨k, rfl, hrk, hk⟩
    have hlt : k < cells.length := by
      obtain ⟨c, hc, -⟩ := Option.map_eq_some_iff.mp hk
      exact (List.getElem?_eq_some_iff.mp hc).1
    exact ⟨k, rfl, hrk, by rwa [List.getElem?_append_left hlt]⟩
  · rw [List.getElem?_append_right hr] at hentry
    rw [List.getElem?_append_right (h.length_eq ▸ hr), ← h.length_eq] at hcell
    obtain ⟨hnode, hparent, ds, hdigest, hchildren⟩ := h'.told _ entry cell hentry hcell
    refine ⟨hnode, hparent, ds, hdigest, hchildren.imp ?_⟩
    rintro position d ⟨k, rfl, hrk, hk⟩
    refine ⟨front.length + k, by omega, by omega, ?_⟩
    rwa [List.getElem?_append_right (by rw [h.length_eq]; omega), h.length_eq, Nat.add_sub_cancel_left]

end Beside

mutual

theorem beside_cells (fingerprint : ν → String) (t : Tree ν) (parent : Option Nat) (index : Nat) :
    Beside fingerprint index (entries parent index t) (cells parent index (t.annotate fingerprint)) := by
  cases t with
  | node n ts =>
    obtain ⟨hbelow, hpositions⟩ := beside_cellsAll fingerprint ts index (index + 1)
    rw [entries, Tree.annotate, cells]
    exact hbelow.cons hpositions

theorem beside_cellsAll (fingerprint : ν → String) (ts : List (Tree ν)) (parent index : Nat) :
    Beside fingerprint index (entriesAll parent index ts).2 (cellsAll parent index (Tree.annotateAll fingerprint ts)) ∧
      List.Forall₂ (fun position d => ∃ k, position = index + k ∧
          ((cellsAll parent index (Tree.annotateAll fingerprint ts))[k]?).map Cell.digest = some d)
        (entriesAll parent index ts).1 (Tree.digestAll fingerprint ts) := by
  cases ts with
  | nil => exact ⟨.nil _ _, .nil⟩
  | cons t ts =>
    have hhead := beside_cells fingerprint t (some parent) index
    obtain ⟨hrest, hpositions⟩ := beside_cellsAll fingerprint ts parent
      (index + (entries (some parent) index t).length)
    rw [entriesAll, Tree.annotateAll, cellsAll, Tree.digestAll, ← hhead.length_eq]
    refine ⟨hhead.append hrest, .cons ⟨0, rfl, ?_⟩ (hpositions.imp ?_)⟩
    · cases t
      rfl
    · rintro position d ⟨k, rfl, hk⟩
      refine ⟨(entries (some parent) index t).length + k, by omega, ?_⟩
      rwa [hhead.length_eq, List.getElem?_append_right (by omega), Nat.add_sub_cancel_left, ← hhead.length_eq]

end

/-! ### The sweep -/

section Sweep

variable {fingerprint : ν → String}

/-- Digests that are read from the arena are joined like digests from a recursion. -/
theorem yields_foldlM_join {values : Array Digest} {positions : List Nat} {ds : List Digest} (comma : Digest)
    (h : List.Forall₂ (fun position d => values[position]? = some d) positions ds) : ∀ start : Digest,
    Yields (positions.foldlM (fun value child => do Hasher.join (← Hasher.join value (values.getD child {})) comma) start)
      (ds.foldl (fun start d => (start.append d).append comma) start) := by
  induction h with
  | nil => exact fun start => .pure start
  | @cons position d positions ds hd _ ih =>
    intro start
    rw [List.foldlM_cons, List.foldl_cons, Array.getD_eq_getD_getElem?, hd, Option.getD_some]
    exact .bind (.bind (yields_join _ _) (yields_join _ _)) (ih _)

theorem yields_hashEntry {values : Array Digest} {entry : Entry ν} {ds : List Digest}
    (h : List.Forall₂ (fun position d => values[position]? = some d) entry.children ds) :
    Yields (hashEntry fingerprint (.ofText "(") (.ofText ",") (.ofText ")") values entry)
      (Tree.digestFrom fingerprint entry.node ds) :=
  .bind (yields_digest _) (.bind (yields_join _ _) (.bind (yields_foldlM_join _ h _) (yields_join _ _)))

variable {arena : Array (Entry ν)} {cells : List (Cell ν)}

/-- A sweep over the first `k` entries finds the digests of the others in place, and leaves all in place. -/
theorem yields_sweep (h : Beside fingerprint 0 arena.toList cells) (k : Nat) : ∀ values : Array Digest,
    k ≤ arena.size → values.size = arena.size → (∀ i, k ≤ i → values[i]? = (cells.map Cell.digest)[i]?) →
    Yields ((List.range k).reverse.foldlM (hashAt fingerprint (.ofText "(") (.ofText ",") (.ofText ")") arena) values)
      (cells.map Cell.digest).toArray := by
  induction k with
  | zero =>
    intro values _ _ hvalues
    obtain rfl : values = (cells.map Cell.digest).toArray := Array.ext_getElem? fun i => by
      rw [hvalues i (Nat.zero_le _), List.getElem?_toArray]
    exact .pure _
  | succ k ih =>
    intro values hk hsize hvalues
    have hentry : arena[k]? = some arena[k] := Array.getElem?_eq_getElem hk
    have hlt : k < cells.length := by
      rw [← h.length_eq, Array.length_toList]
      exact hk
    obtain ⟨cell, hcell⟩ : ∃ cell, cells[k]? = some cell := ⟨_, List.getElem?_eq_getElem hlt⟩
    obtain ⟨hnode, -, ds, hdigest, hchildren⟩ := h.told k _ cell (by rw [Array.getElem?_toList, hentry]) hcell
    have hread : List.Forall₂ (fun position d => values[position]? = some d) arena[k].children ds := by
      refine hchildren.imp ?_
      rintro position d ⟨i, rfl, hki, hi⟩
      rw [Nat.zero_add, hvalues i hki, List.getElem?_map, hi]
    rw [List.range_succ, List.reverse_append, List.reverse_singleton, List.singleton_append, List.foldlM_cons, hashAt,
      hentry]
    refine .bind (.bind (yields_hashEntry hread) (.pure _)) (ih _ (by omega) (by simpa using hsize) fun i hi => ?_)
    rw [Array.getElem?_setIfInBounds]
    split_ifs with hik hin
    · rw [← hik, List.getElem?_map, hcell, Option.map_some, hdigest, hnode]
    · exact absurd (hsize ▸ hk) hin
    · exact hvalues i (by omega)

end Sweep

/-- **A reverse sweep hashes a tree.** Whatever was hashed before, it gives every entry the digest of its subtree. -/
theorem yields_hashArena (fingerprint : ν → String) (t : Tree ν) : Yields (hashArena fingerprint (push #[] none t))
    ((Sharing.cells none 0 (t.annotate fingerprint)).map Cell.digest).toArray := by
  have hbeside := beside_cells fingerprint t none 0
  rw [push_empty]
  refine .bind (yields_digest _) (.bind (yields_digest _) (.bind (yields_digest _)
    (yields_sweep hbeside _ _ le_rfl (by simp) fun i hi => ?_)))
  rw [List.size_toArray] at hi
  rw [Array.getElem?_eq_none (by simpa using hi), List.getElem?_eq_none (by simpa [← hbeside.length_eq] using hi)]

/-- The occurrences of a tree are the entries of its arena, with the digests of the sweep. -/
theorem occurrences_eq_arena (fingerprint : ν → String) (t : Tree ν) :
    occurrences fingerprint t =
      (push #[] none t).zipWith (fun entry digest => ⟨entry.node, entry.parent, digest⟩)
        ((hashArena fingerprint (push #[] none t)).run {}).1 := by
  have hbeside := beside_cells fingerprint t none 0
  have hdigests := (yields_hashArena fingerprint t {} Hasher.sound_empty).1
  rw [push_empty] at hdigests ⊢
  rw [occurrences_eq, StateT.run, hdigests, List.zipWith_toArray]
  refine congrArg List.toArray (List.ext_getElem? fun i => ?_)
  rw [List.getElem?_zipWith, List.getElem?_map]
  rcases Nat.lt_or_ge i (entries none 0 t).length with hi | hi
  · obtain ⟨entry, hentry⟩ : ∃ entry, (entries none 0 t)[i]? = some entry := ⟨_, List.getElem?_eq_getElem hi⟩
    obtain ⟨cell, hcell⟩ : ∃ cell, (cells none 0 (t.annotate fingerprint))[i]? = some cell :=
      ⟨_, List.getElem?_eq_getElem (hbeside.length_eq ▸ hi)⟩
    obtain ⟨hnode, hparent, -⟩ := hbeside.told i entry cell hentry hcell
    rw [hentry, hcell]
    change some cell = some ⟨entry.node, entry.parent, cell.digest⟩
    rw [hnode, hparent]
  · rw [List.getElem?_eq_none hi, List.getElem?_eq_none (hbeside.length_eq ▸ hi)]

end Schemata.Sharing
