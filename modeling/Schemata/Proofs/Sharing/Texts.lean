import Schemata.Proofs.Residues
import Schemata.Proofs.Sharing.Digests
import Schemata.Proofs.Unfoldings
import Schemata.Proofs.Acyclicity

/-!
# Texts of subtrees

The digest of a subtree is put together from the digests of its parts, and its text is never written down. It is the
digest of that text nevertheless (`Tree.digest_eq_ofText`), because the digest of one text behind another is told by their
digests. So the digests of all occurrences below a node are the digests of texts (`Linked.occurrences_digest_texts`), and
what unfolds alike has one digest.
-/

namespace Schemata.Sharing

variable {ν ν' σ : Type}

namespace Tree

variable {fingerprint : ν → String}

theorem textAll_eq_join (ts : List (Tree ν)) :
    textAll fingerprint ts = String.join (ts.map fun t => t.text fingerprint ++ ",") := by
  induction ts with
  | nil => rfl
  | cons t ts ih => rw [textAll, ih, List.map_cons, String.join_cons]

mutual

/-- **The digest of a tree** is the digest of its text. -/
theorem digest_eq_ofText (t : Tree ν) : t.digest fingerprint = .ofText (t.text fingerprint) := by
  cases t with
  | node n ts => rw [digest, ← Digest.ofText_append, foldl_digestAll ts, ← Digest.ofText_append, text]

theorem foldl_digestAll (ts : List (Tree ν)) (s : String) :
    (digestAll fingerprint ts).foldl (fun start d => (start.append d).append (.ofText ",")) (Digest.ofText s) =
      Digest.ofText (s ++ textAll fingerprint ts) := by
  cases ts with
  | nil => rw [digestAll, List.foldl_nil, textAll, String.append_empty]
  | cons t ts =>
    rw [digestAll, List.foldl_cons, digest_eq_ofText t, ← Digest.ofText_append, ← Digest.ofText_append,
      foldl_digestAll ts, textAll, String.append_assoc, String.append_assoc, String.append_assoc]

end

mutual

/-- The text of a tree is told by its fingerprints. -/
theorem text_map {print : ν' → String} (f : ν → ν') (t : Tree ν) : (t.map f).text print = t.text (print ∘ f) := by
  cases t with
  | node n ts =>
    rw [map_node, text, text, textAll_map f ts]
    rfl

theorem textAll_map {print : ν' → String} (f : ν → ν') (ts : List (Tree ν)) :
    textAll print (ts.map (map f)) = textAll (print ∘ f) ts := by
  cases ts with
  | nil => rfl
  | cons t ts => rw [List.map_cons, textAll, textAll, text_map f t, textAll_map f ts]

end

end Tree

namespace Linked

variable {L : Linked σ ν} {g : σ} {S : Set ν} {rank : ν → Nat} {root : ν}

/-- The text of the tree below a node. -/
def text (L : Linked σ ν) (g : σ) (n : ν) : String :=
  (L.tree g n).text (L.fingerprint g)

theorem text_eq_text_pattern (L : Linked σ ν) (g : σ) (n : ν) : L.text g n = (L.pattern g n).text id := by
  rw [pattern, Tree.text_map]
  rfl

theorem digest_eq_ofText (L : Linked σ ν) (g : σ) (n : ν) : L.digest g n = .ofText (L.text g n) :=
  Tree.digest_eq_ofText _

/-- The text of a node has the texts of its children in it. -/
theorem text_eq (hg : Graded (L.children g) S (L.bound g) rank) {n : ν} (hn : n ∈ S) :
    L.text g n =
      L.fingerprint g n ++ "(" ++ String.join ((L.children g n).map fun m => L.text g m ++ ",") ++ ")" := by
  rw [text, tree, hg.unfold_eq hn, Tree.text, Tree.textAll_eq_join, List.map_map]
  rfl

/-- **The digests below a node are digests of texts**: of the fingerprint of each node with the texts of its children,
in order, each followed by a comma. It does not matter what else was hashed before. All nodes below occur, and those that
unfold alike occur with one digest. -/
theorem occurrences_digest_texts (hS : L.Enclosed g S) (hroot : root ∈ S) (hacyclic : AcyclicOn (L.children g) S) :
    (∀ n, Reaches (L.children g) root n → (∃ cell ∈ L.occurrences g root, cell.node = n) ∧
      L.text g n =
        L.fingerprint g n ++ "(" ++ String.join ((L.children g n).map fun m => L.text g m ++ ",") ++ ")") ∧
    (∀ cell ∈ L.occurrences g root, ∀ h : Hasher, h.Reached →
      cell.digest = (Hasher.digest (L.text g cell.node) h).1) ∧
    ∀ a ∈ L.occurrences g root, ∀ b ∈ L.occurrences g root, L.pattern g a.node = L.pattern g b.node →
      a.digest = b.digest := by
  obtain ⟨nodes, hnodes, hcard⟩ := hS.finite
  obtain ⟨rank, hgraded, -⟩ := exists_graded hacyclic hS.mem hnodes hcard
  have hdigest : ∀ cell ∈ L.occurrences g root, cell.digest = L.digest g cell.node := fun cell hcell =>
    (full_occurrences hgraded hroot).digest_eq cell (Array.mem_toList_iff.mpr hcell)
  refine ⟨fun n hn => ?_, fun cell hcell h hh => ?_, fun a ha b hb hab => ?_⟩
  · obtain ⟨i, cell, hcell, rfl⟩ := exists_occurrence hgraded hroot hn
    have hmem := Array.mem_of_getElem? hcell
    exact ⟨⟨cell, hmem, rfl⟩, text_eq hgraded (mem_of_mem_occurrences hS.mem hroot hmem)⟩
  · rw [hdigest cell hcell, digest_eq_ofText, (Hashing.yields_digest _ h hh.sound).1]
  · rw [hdigest a ha, hdigest b hb, digest_eq_digest_pattern, hab, ← digest_eq_digest_pattern]

end Linked

/-- The second box of the crate has the digest of its text, also if a word was hashed before. -/
theorem digest_of_box_in_crate :
    ∃ cell ∈ LabelledGraph.linked.occurrences crate 0, cell.node = 2 ∧
      cell.digest = (Hasher.digest "box(nut(),)" (Hasher.digest "screwdriver" {}).2).1 := by
  obtain ⟨htexts, hdigests, -⟩ :=
    Linked.occurrences_digest_texts crate.enclosed_univ (Set.mem_univ 0) fun n _ => acyclic_crate n
  obtain ⟨⟨cell, hcell, hnode⟩, -⟩ := htexts 2 (.single (by decide))
  have htext : LabelledGraph.linked.text crate 2 = "box(nut(),)" := by decide +kernel
  refine ⟨cell, hcell, hnode, ?_⟩
  rw [hdigests cell hcell _ (.digest .empty "screwdriver"), hnode, htext]

end Schemata.Sharing
