import Schemata.Proofs.Graph.Walks
import Schemata.Proofs.Lineage.Soundness
import Schemata.Proofs.Reading
import Schemata.Proofs.Unfoldings

/-!
# No cycle is ever made

Sharing asks nodes to hold others on the evidence of digests, which may take different subtrees for equal. Even then no
cycle comes about. The weight of a node, which is the length of the text below it, is known from its digest, so nodes are
only ever asked to hold lighter ones. This holds for any kind of graph in which a redirection gives the node that is asked
the source and no node anything else (`Linked.Obliging`), at every level.

Joins link root objects to what lies below all of them. So the graphs that schemas are read into and joined in have no
cycles either, and the walks over them come to an end.
-/

namespace Schemata

namespace Sharing

variable {σ ν : Type}

/-- No node of a region leads back to itself. -/
def AcyclicOn (children : ν → List ν) (S : Set ν) : Prop :=
  ∀ x ∈ S, ¬ Relation.TransGen (fun x y => y ∈ children x) x x

namespace Linked

/-- A redirection gives no node another child, except for the node that is asked, which may get the source. -/
def Obliging (L : Linked σ ν) : Prop :=
  ∀ (g : σ) (r : Redirection ν) (x y : ν), y ∈ L.children (L.redirect g r) x →
    y ∈ L.children g x ∨ (x = r.holder ∧ y = r.source)

/-- A finite region of a graph that nothing leads out of. No more of its nodes have children than a path may have
steps. -/
structure Enclosed (L : Linked σ ν) (g : σ) (S : Set ν) : Prop where
  mem : ∀ {x y : ν}, x ∈ S → y ∈ L.children g x → y ∈ S
  finite : ∃ nodes : Finset ν, (∀ {x y : ν}, x ∈ S → y ∈ L.children g x → x ∈ nodes) ∧ nodes.card ≤ L.bound g

/-- **Sharing makes no cycle**, whatever the digests are, and nothing leads out of the region afterwards. -/
theorem acyclicOn_share {L : Linked σ ν} {g : σ} {S : Set ν} {root : ν} (hL : L.Obliging) (hS : L.Enclosed g S)
    (hroot : root ∈ S) (hacyclic : AcyclicOn (L.children g) S) (level : Nat) :
    (∀ {x y : ν}, x ∈ S → y ∈ L.children (L.share g root level) x → y ∈ S) ∧
      AcyclicOn (L.children (L.share g root level)) S := by
  obtain ⟨nodes, hnodes, hcard⟩ := hS.finite
  obtain ⟨rank, hgraded, -⟩ := exists_graded hacyclic hS.mem hnodes hcard
  have hdown : ∀ {x y}, x ∈ S → y ∈ L.children (L.share g root level) x → y ∈ S ∧ L.weight g y < L.weight g x :=
    fun hx hy => weight_lt_of_mem_children_share hgraded (fun {h r x y} => hL h r x y) hroot hx hy
  refine ⟨fun hx hy => (hdown hx hy).1, fun x hx hcycle => ?_⟩
  have hpath : ∀ {y}, Relation.TransGen (fun x y => y ∈ L.children (L.share g root level) x) x y →
      y ∈ S ∧ L.weight g y < L.weight g x := by
    intro y hxy
    induction hxy with
    | single hy => exact hdown hx hy
    | tail _ hy ih => exact ⟨(hdown ih.1 hy).1, (hdown ih.1 hy).2.trans ih.2⟩
  exact Nat.lt_irrefl _ (hpath hcycle).2

end Linked

theorem LabelledGraph.mem_replaceFirst {old new n : Nat} {ns : List Nat} (hn : n ∈ replaceFirst old new ns) :
    n ∈ ns ∨ n = new := by
  induction ns with
  | nil => exact absurd hn List.not_mem_nil
  | cons m ns ih =>
    rw [replaceFirst] at hn
    split_ifs at hn
    · exact (List.mem_cons.mp hn).symm.imp_left (List.mem_cons_of_mem m)
    · rcases List.mem_cons.mp hn with rfl | hn
      · exact .inl (by simp)
      · exact (ih hn).imp_left (List.mem_cons_of_mem m)

theorem LabelledGraph.obliging_linked : LabelledGraph.linked.Obliging := by
  intro g r x y hy
  change y ∈ (g.redirect r).children x at hy
  rw [children_redirect] at hy
  split_ifs at hy with hholder
  · exact (mem_replaceFirst hy).imp_right fun hsource => ⟨hholder.symm, hsource⟩
  · exact .inl hy

theorem LabelledGraph.enclosed_univ (g : LabelledGraph) : LabelledGraph.linked.Enclosed g Set.univ := by
  refine ⟨fun _ _ => Set.mem_univ _, Finset.range g.nodes.size, fun {x y} _ hy => ?_, (Finset.card_range _).le⟩
  rw [Finset.mem_range]
  by_contra hx
  change y ∈ g.children x at hy
  rw [children, Array.getElem?_eq_none (Nat.le_of_not_lt hx)] at hy
  exact absurd hy List.not_mem_nil

end Sharing

open Sharing (Linked LabelledGraph Acyclic AcyclicOn)

variable {g : Graph} {all roots : Registry Schema} {parsed : List Schema}

theorem Graph.enclosed_present (hpresent : ∀ {x y : Node}, g.Present x → g.Link x y → g.Present y) :
    linked.Enclosed g { x | g.Present x } :=
  ⟨hpresent, g.nodes, fun hx _ => mem_nodes_iff.mpr hx, g.card_nodes_le⟩

/-- Sharing in a graph of items and properties makes no cycle, whether objects file their properties by name or not. -/
theorem Graph.acyclic_share {root : Node} (hpresent : ∀ {x y : Node}, g.Present x → g.Link x y → g.Present y)
    (hroot : g.Present root) (hacyclic : Acyclic g.children) (level : Nat) :
    Acyclic (linked.share g root level).children := by
  obtain ⟨hmem, hshared⟩ := Linked.acyclicOn_share (fun _ _ _ _ => mem_children_redirect) (enclosed_present hpresent)
    hroot (fun x _ => hacyclic x) level
  have hpresent' : ∀ {x y}, (linked.share g root level).Present x → (linked.share g root level).Link x y →
      (linked.share g root level).Present y := fun hx hy =>
    (present_share_iff g root level).mpr (hmem ((present_share_iff g root level).mp hx) hy)
  intro x hcycle
  exact hshared x ((present_share_iff g root level).mp (present_of_cycle hpresent' hcycle)) hcycle

/-- **No cycle is ever made.** Sharing makes none, at any level and whatever the digests are, in graphs of any kind whose
redirections are obliging; so in graphs of labelled nodes and in graphs of items and properties. After schemas have been
read and joined there is none either, however the joins end, so the walks over the graph come to an end. -/
theorem sharing_and_joins_make_no_cycle :
    (∀ (σ ν : Type) (L : Linked σ ν) (g : σ) (S : Set ν) (root : ν) (level : Nat), L.Obliging → L.Enclosed g S →
      root ∈ S → AcyclicOn (L.children g) S → AcyclicOn (L.children (L.share g root level)) S) ∧
    (∀ (g : LabelledGraph) (root level : Nat), Acyclic g.children →
      Acyclic (LabelledGraph.linked.share g root level).children) ∧
    (∀ (g : Graph) (root : Node) (level : Nat), (∀ {x y : Node}, g.Present x → g.Link x y → g.Present y) →
      g.Present root → Acyclic g.children → Acyclic (Graph.linked.share g root level).children) ∧
    ∀ (data : List Entries) (g : Graph) (parsed : List Schema) (all roots : Registry Schema) (journal : List Event)
      (result : Except SchemaError (List Schema)) (w : Workspace), Schema.parseEach {} data = .ok (g, parsed) →
      all.Filed Schema.id → (∀ s ∈ all.elements, s ∈ parsed) → (∀ r ∈ roots.elements, r ∈ all.elements) →
      (Lineage.resolve all roots).run.run ⟨g, journal⟩ = (result, w) → Acyclic w.graph.children ∧ w.graph.WalksEnd := by
  refine ⟨fun σ ν L g S root level hL hS hroot hacyclic => ?_, fun g root level hacyclic x => ?_,
    fun g root level hpresent hroot hacyclic => ?_,
    fun data g parsed all roots journal result w hparse hall hparsed hroots hrun => ?_⟩
  · exact (Linked.acyclicOn_share hL hS hroot hacyclic level).2
  · exact (Linked.acyclicOn_share LabelledGraph.obliging_linked g.enclosed_univ (Set.mem_univ root)
      (fun n _ => hacyclic n) level).2 x (Set.mem_univ x)
  · exact Graph.acyclic_share hpresent hroot hacyclic level
  · have hassembled : Schema.Assembled g parsed.reverse := by
      simpa using Schema.assembled_empty.parseEach hparse
    have hroofed := hassembled.roofed_resolve (w := ⟨g, journal⟩) hall
      (fun s hs => List.mem_reverse.mpr (hparsed s hs)) hroots hrun
    exact ⟨hroofed.sound.acyclic, hroofed.sound.walksEnd⟩

/-- The crate, the delivery and the family of the document and the invoice stay without cycles. -/
theorem crate_and_family_have_no_cycle :
    Acyclic (LabelledGraph.linked.share Sharing.crate 0 2).children ∧
      AcyclicOn (LabelledGraph.linked.children (LabelledGraph.linked.share Sharing.crate 0 1)) Set.univ ∧
      Acyclic (Graph.linked.share Sharing.deliveryRead.1 (.property Sharing.deliveryRead.2) 2).children ∧
      ∃ schemas w, (Lineage.resolve Lineage.family Lineage.family).run.run ⟨Lineage.invoice.1, []⟩ = (.ok schemas, w) ∧
        Acyclic w.graph.children ∧ w.graph.WalksEnd := by
  obtain ⟨hany, hlabelled, hgraph, hjoins⟩ := sharing_and_joins_make_no_cycle
  refine ⟨hlabelled _ 0 2 Sharing.acyclic_crate, ?_, ?_, ?_⟩
  · exact hany _ _ _ _ _ 0 1 LabelledGraph.obliging_linked Sharing.crate.enclosed_univ (Set.mem_univ 0)
      fun n _ => Sharing.acyclic_crate n
  · have hroot : Sharing.deliveryRead.1.Present (.property Sharing.deliveryRead.2) :=
      show Sharing.deliveryRead.2.index < Sharing.deliveryRead.1.properties.size by decide +kernel
    exact hgraph _ _ 2 Sharing.sound_delivery.present hroot Sharing.sound_delivery.acyclic
  · set run := (Lineage.resolve Lineage.family Lineage.family).run.run ⟨Lineage.invoice.1, []⟩
    have hok : run.1 = .ok (run.1.toOption.getD default) := eq_ok_of_isSome_toOption (by decide +kernel)
    have hparse : Schema.parseEach {} [Lineage.documentData, Lineage.invoiceData] =
        .ok (Lineage.invoice.1, [Lineage.document.2, Lineage.invoice.2]) := by
      simp only [Schema.parseEach, Lineage.parse_document, Lineage.parse_invoice, bind, Except.bind]
      rfl
    exact ⟨_, run.2, Prod.ext hok rfl, hjoins _ _ _ _ _ [] run.1 run.2 hparse (Registry.filed_ofList _ _)
      (by decide +kernel) (fun _ hr => hr) rfl⟩

end Schemata
