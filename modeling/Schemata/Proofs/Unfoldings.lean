import Schemata.Proofs.Graph.Redirecting
import Schemata.Proofs.Schema
import Schemata.Sharing.Labelled

/-!
# Sharing keeps what nodes unfold to

Sharing changes which nodes a node holds, but not what the node unfolds to. This holds of all nodes, also of those that
nothing leads to any more, and at every level, in graphs of labelled nodes as well as in graphs of items and properties.
The graph has to be acyclic, so that its nodes unfold to trees, and the digests have to tell these trees apart.

Graphs of labelled nodes come first. The graphs of items and properties are those of `Graph.Sound`.
-/

namespace Schemata.Sharing

/-- A node unfolds to its fingerprint over what its children unfold to: nothing is cut off. -/
def Linked.Unfolded {σ ν : Type} (L : Linked σ ν) (g : σ) (n : ν) : Prop :=
  L.pattern g n = .node (L.fingerprint g n) ((L.children g n).map (L.pattern g))

namespace LabelledGraph

variable {g h : LabelledGraph} {r : Redirection Nat}

/-! ### Labelled nodes -/

theorem map_replaceFirst {β : Type} {f : Nat → β} {old new : Nat} (hf : f new = f old) (ns : List Nat) :
    (replaceFirst old new ns).map f = ns.map f := by
  induction ns with
  | nil => rfl
  | cons n ns ih =>
    rw [replaceFirst]
    split_ifs with hn
    · rw [List.map_cons, List.map_cons, hf, hn]
    · rw [List.map_cons, List.map_cons, ih]

theorem label_redirect (g : LabelledGraph) (r : Redirection Nat) (n : Nat) : (g.redirect r).label n = g.label n := by
  rw [label, label, redirect, Array.getElem?_modify]
  split_ifs with hn
  · rw [Option.map_map]
    rfl
  · rfl

theorem children_redirect (g : LabelledGraph) (r : Redirection Nat) (n : Nat) :
    (g.redirect r).children n =
      if r.holder = n then replaceFirst r.destination r.source (g.children n) else g.children n := by
  rw [children, children, redirect, Array.getElem?_modify]
  split_ifs with hn
  · cases g.nodes[n]? <;> rfl
  · rfl

/-- A finite acyclic graph is graded. -/
theorem exists_graded (hg : Acyclic g.children) :
    ∃ rank, Graded g.children Set.univ (linked.bound g) rank := by
  have hlt : ∀ {n m}, m ∈ g.children n → n ∈ Finset.range g.nodes.size := by
    intro n m hm
    rw [Finset.mem_range]
    by_contra hn
    rw [children, Array.getElem?_eq_none (Nat.le_of_not_lt hn)] at hm
    exact absurd hm List.not_mem_nil
  obtain ⟨rank, hgraded, -⟩ := Sharing.exists_graded (fun n _ => hg n) (fun _ _ => Set.mem_univ _) (fun _ hy => hlt hy)
    (Finset.card_range g.nodes.size).le
  exact ⟨rank, hgraded⟩

theorem alike_redirect (hh : linked.Alike Set.univ g h)
    (hequal : linked.pattern g r.source = linked.pattern g r.destination) : linked.Alike Set.univ g (h.redirect r) := by
  refine ⟨?_, fun n => ?_, fun _ _ => Set.mem_univ _, fun {n} hn => ?_⟩
  · rw [← hh.bound_eq]
    exact Array.size_modify
  · exact (label_redirect h r n).trans (hh.fingerprint_eq n)
  · rw [← hh.map_pattern_eq hn]
    change ((h.redirect r).children n).map _ = (h.children n).map _
    rw [children_redirect]
    split_ifs
    · exact map_replaceFirst hequal _
    · rfl

/-- Sharing in a graph of labelled nodes replaces nodes by others that unfold to the same tree. -/
theorem alike_share (hg : Acyclic g.children) (root level : Nat) (hdiscerning : linked.Discerning g root) :
    linked.Alike Set.univ g (linked.share g root level) := by
  obtain ⟨rank, hgraded⟩ := exists_graded hg
  refine List.foldlRecOn _ _ (.refl hgraded) fun h hh r hr => ?_
  obtain ⟨-, -, hequal, -⟩ := Linked.pattern_eq_of_mem_plan hgraded (Set.mem_univ root) hdiscerning hr
  exact alike_redirect hh hequal

end LabelledGraph

/-! ### The unfolding of every node -/

/-- **Sharing keeps what every node unfolds to.** Nothing is cut off, before sharing or after it. -/
theorem pattern_share :
    (∀ (g : LabelledGraph) (root level : Nat), Acyclic g.children → LabelledGraph.linked.Discerning g root →
      ∀ n, LabelledGraph.linked.Unfolded g n ∧
        LabelledGraph.linked.Unfolded (LabelledGraph.linked.share g root level) n ∧
        LabelledGraph.linked.pattern (LabelledGraph.linked.share g root level) n = LabelledGraph.linked.pattern g n) ∧
    (∀ (g : Graph) (root : Node) (level : Nat), g.Sound → g.Present root → Graph.linked.Discerning g root →
      ∀ n, g.Present n → Graph.linked.Unfolded g n ∧
        Graph.linked.Unfolded (Graph.linked.share g root level) n ∧
        Graph.linked.pattern (Graph.linked.share g root level) n = Graph.linked.pattern g n) := by
  constructor
  · intro g root level hg hdiscerning n
    obtain ⟨rank, hgraded⟩ := LabelledGraph.exists_graded hg
    have halike := LabelledGraph.alike_share hg root level hdiscerning
    exact ⟨Linked.pattern_eq hgraded (Set.mem_univ n), halike.pattern_eq_node hgraded (Set.mem_univ n),
      halike.pattern_eq hgraded (Set.mem_univ n)⟩
  · intro g root level hg hroot hdiscerning n hn
    obtain ⟨rank, hgraded⟩ := hg.exists_graded
    have halike := (hg.interchanged_share hroot level hdiscerning).toAlike
    exact ⟨Linked.pattern_eq hgraded hn, halike.pattern_eq_node hgraded hn, halike.pattern_eq hgraded hn⟩

/-! ### Crates -/

/-- A crate with two kinds of boxes, one of them twice, that all contain a nut. -/
def crate : LabelledGraph :=
  ⟨#[⟨"crate", [1, 1, 2]⟩, ⟨"box", [3]⟩, ⟨"box", [4]⟩, ⟨"nut", []⟩, ⟨"nut", []⟩]⟩

theorem acyclic_crate : Acyclic crate.children := by
  have hdown : ∀ n < 5, ∀ m ∈ crate.children n, 5 - m < 5 - n := by decide
  refine acyclic_of_rank (5 - ·) fun n m hm => ?_
  by_cases hn : n < 5
  · exact hdown n hn m hm
  · have hnone : crate.nodes[n]? = none := Array.getElem?_eq_none (Nat.le_of_not_lt hn)
    rw [LabelledGraph.children, hnone] at hm
    exact absurd hm List.not_mem_nil

/-- Two levels up all nuts are in the crate, so one of them is enough. -/
theorem share_crate :
    LabelledGraph.linked.share crate 0 2 =
      ⟨#[⟨"crate", [1, 1, 2]⟩, ⟨"box", [3]⟩, ⟨"box", [3]⟩, ⟨"nut", []⟩, ⟨"nut", []⟩]⟩ := by
  rw [Linked.share, Linked.plan, plan, sweepTree, candidates_eq_insertionSort]
  decide +kernel

/-- A delivery with two dates. -/
def delivery : Entries :=
  [(.text "type", .text "object"), (.text "properties", .mapping
    [(.text "due", .mapping (Schema.definition "string")), (.text "sent", .mapping (Schema.definition "string"))])]

/-- The delivery before anything is shared. -/
def deliveryRead : Graph × PropertyId :=
  (Graph.parseProperty {} {} "delivery" delivery).toOption.getD default

theorem sound_delivery : deliveryRead.1.Sound := by
  have hparse : Graph.parseProperty {} {} "delivery" delivery = .ok deliveryRead :=
    eq_ok_of_isSome_toOption (by decide +kernel)
  exact (Schema.planted_parseProperty (.refl _) hparse).1.sound Graph.sound_empty

/-- One of the dates is let go. -/
theorem share_delivery :
    (deliveryRead.1.property ⟨1⟩).item = ⟨1⟩ ∧
      ((Graph.linked.share deliveryRead.1 (.property deliveryRead.2) 2).property ⟨1⟩).item = ⟨0⟩ := by
  refine ⟨by decide +kernel, ?_⟩
  rw [Linked.share, Linked.plan, plan, sweepTree, candidates_eq_insertionSort]
  decide +kernel

/-- The boxes and the dates unfold to what they did, also those that are let go. -/
theorem pattern_share_crate_and_delivery :
    LabelledGraph.linked.share crate 0 2 ≠ crate ∧
      (∀ n, LabelledGraph.linked.pattern (LabelledGraph.linked.share crate 0 2) n =
        LabelledGraph.linked.pattern crate n) ∧
      Graph.linked.share deliveryRead.1 (.property deliveryRead.2) 2 ≠ deliveryRead.1 ∧
      ∀ n, deliveryRead.1.Present n →
        Graph.linked.pattern (Graph.linked.share deliveryRead.1 (.property deliveryRead.2) 2) n =
          Graph.linked.pattern deliveryRead.1 n := by
  refine ⟨?_, fun n => ?_, fun heq => ?_, fun n hn => ?_⟩
  · rw [share_crate]
    decide
  · exact (pattern_share.1 crate 0 2 acyclic_crate (by decide +kernel) n).2.2
  · obtain ⟨hbefore, hafter⟩ := share_delivery
    rw [heq, hbefore] at hafter
    exact absurd hafter (by decide)
  · have hroot : deliveryRead.1.Present (.property deliveryRead.2) :=
      show deliveryRead.2.index < deliveryRead.1.properties.size by decide +kernel
    exact (pattern_share.2 deliveryRead.1 _ 2 sound_delivery hroot (by decide +kernel) n hn).2.2

end Schemata.Sharing
