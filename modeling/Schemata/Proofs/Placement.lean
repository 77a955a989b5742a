import Schemata.Proofs.Collection
import Schemata.Proofs.Graph.Depths
import Schemata.Proofs.Lineage.Soundness
import Schemata.Proofs.Reading

/-!
# Placements follow depths

A property of a root object is placed on top, and every property below it is nested (`Graph.Topmost`). This holds of
every schema that is read, because properties are placed by their depths. It stays when schemas are joined: what a root
object inherits was held by another root object, and the copy that it may get instead keeps its field and holds a scalar.

So it holds of the graph that a conversion leaves, whatever the digests are (`convert_places_by_depth`).
-/

namespace Schemata

open Schemata.Graph (New Grown)
open Schema (Assembled Rooted Roofed)
open Lineage (joinStep)

variable {g h : Graph} {s t : Schema} {given read : List Schema} {entries : Entries} {all : Registry Schema}
  {p q : PropertyId} {x y : Node}

namespace Graph

/-- Where no link has been added, nothing new is led to. -/
theorem leads_of_leads {S : Set Node} (hclosed : ∀ {x y : Node}, x ∈ S → g.Link x y → y ∈ S)
    (hlink : ∀ {x y : Node}, x ∈ S → h.Link x y → g.Link x y) (hx : x ∈ S) (hxy : h.Leads x y) : g.Leads x y ∧ y ∈ S := by
  induction hxy with
  | refl => exact ⟨.refl, hx⟩
  | tail _ hstep ih => exact ⟨ih.1.tail (hlink ih.2 hstep), hclosed ih.2 (hlink ih.2 hstep)⟩

/-- A property is placed on top, and the properties below it are nested. -/
structure Topmost (g : Graph) (p : PropertyId) : Prop where
  top : (g.property p).placement = .top
  nested : ∀ q, g.Leads (.item (g.property p).item) (.property q) → (g.property q).placement = .nested

theorem Tiered.topmost {root : PropertyId} (hg : g.Tiered root) (hp : g.Link (.item (g.property root).item) (.property p)) :
    g.Topmost p := by
  have hone : g.Under root 1 (.property p) := (Under.root.link (link_property_iff.mpr rfl)).link hp
  refine ⟨hg 1 p hone, fun q hq => ?_⟩
  obtain ⟨n, hn, hq⟩ := (hone.link (link_property_iff.mpr rfl)).exists_of_leads hq
  rw [hg n q hq, Placement.ofLevel, if_neg (Nat.not_le.mpr hn)]

/-- A property stays topmost where neither properties nor links change. -/
theorem Topmost.of_region {S : Set Node} (hp : g.Topmost p) (hclosed : ∀ {x y : Node}, x ∈ S → g.Link x y → y ∈ S)
    (hlink : ∀ {x y : Node}, x ∈ S → h.Link x y → g.Link x y)
    (hproperty : ∀ {q : PropertyId}, .property q ∈ S → h.property q = g.property q) (hmem : .property p ∈ S) :
    h.Topmost p := by
  refine ⟨hproperty hmem ▸ hp.top, fun q hq => ?_⟩
  rw [hproperty hmem] at hq
  obtain ⟨hq, hqmem⟩ := leads_of_leads hclosed hlink (hclosed hmem (link_property_iff.mpr rfl)) hq
  rw [hproperty hqmem]
  exact hp.nested q hq

/-- A required copy of a topmost property is topmost: it holds a scalar. -/
theorem Topmost.copy {b : Graph} (hp : h.Topmost p) (hcopy : RequiredCopy b h p q) : h.Topmost q := by
  refine ⟨?_, fun r hr => ?_⟩
  · rw [hcopy.property_eq]
    exact hp.top
  · obtain ⟨scalar, -, -, hscalar⟩ := hcopy.held_eq
    rcases Relation.ReflTransGen.cases_head hr with heq | ⟨y, hlink, -⟩
    · exact nomatch heq
    · rw [Link, children_item, show h.item (h.property q).item = _ from hscalar] at hlink
      exact absurd hlink List.not_mem_nil

end Graph

namespace Schema

/-- The properties of the root objects are topmost. -/
def Topped (g : Graph) (schemas : List Schema) : Prop :=
  ∀ s ∈ schemas, ∀ p ∈ (s.rootObject g).properties.elements, g.Topmost p

theorem Topped.parse (hg : Assembled g given) (htopped : Topped g given) (hparse : parse g entries = .ok (h, s)) :
    Topped h (s :: given) := by
  obtain ⟨hgrown, hs, -⟩ := hasRoot_of_parse hparse
  intro t ht p hp
  rcases List.mem_cons.mp ht with rfl | ht
  · exact (tiered_of_parse hparse).topmost (Graph.link_item_property_iff.mpr ⟨_, hs.object, hp⟩)
  · have hroot := hg.parses.rooted.hasRoot t ht
    rw [hroot.rootObject_eq hgrown.kept (hgrown.item_eq _ hroot.root.item_lt)] at hp
    exact (htopped t ht p hp).of_region (S := { x | g.Present x }) hg.sound.present
      (fun hx hlink => (Graph.Present.link_iff hx hgrown).mp hlink) (fun hq => hgrown.property_eq _ hq)
      (hroot.has p hp).property_lt

theorem Topped.parseEach {data : List Entries} (hread : parseEach {} data = .ok (h, read)) : Topped h read.reverse := by
  have hboth := parseEach_induction (P := fun h given => Assembled h given ∧ Topped h given)
    (fun hg hparse => ⟨hg.1.parse hparse, hg.2.parse hg.1 hparse⟩) data ⟨assembled_empty, by simp [Topped]⟩ hread
  simpa using hboth.2

/-- One join keeps the properties of the root objects topmost. -/
theorem Topped.joined (htopped : Topped g all.elements) (hg : Roofed g all.elements) (hrooted : Rooted g all.elements)
    (hs : s ∈ all.elements) (hstep : joinStep all g s = .ok h) : Topped h all.elements := by
  have hjoined := Lineage.joined_of_joinStep_eq_ok hs hrooted hstep
  obtain ⟨-, hframe⟩ := hjoined.frame hs hrooted
  obtain ⟨_, hcanopy⟩ := hg.canopy
  -- The region below the root objects does not change.
  have hkept : ∀ t ∈ all.elements, ∀ p ∈ (t.rootObject g).properties.elements, h.Topmost p := fun t ht p hp =>
    (htopped t ht p hp).of_region (S := rest g all.elements) hcanopy.closed
      (fun hx hlink => (hjoined.link_iff hx.1 (hx.2 s hs).2).mp hlink) (fun hq => hjoined.kept.property_eq _ hq.1)
      (hcanopy.held t ht p hp)
  intro t ht p hp
  by_cases hts : t = s
  · subst hts
    obtain ⟨u, hu, r, hr, rfl | hcopy⟩ := hjoined.exists_source ht hp
    · exact hkept u hu p hr
    · exact (hkept u hu r hr).copy hcopy
  · rw [hframe t ht hts] at hp
    exact hkept t ht p hp

/-- **All joins** keep the properties of the root objects topmost. -/
theorem Topped.foldlM (order : List Schema) : ∀ {g : Graph}, Topped g all.elements → Roofed g all.elements →
    Rooted g all.elements → (∀ s ∈ order, s ∈ all.elements) → order.foldlM (joinStep all) g = .ok h →
    Topped h all.elements ∧ Rooted h all.elements := by
  induction order with
  | nil =>
    intro g htopped _ hrooted _ hjoins
    obtain rfl := Except.ok.inj hjoins
    exact ⟨htopped, hrooted⟩
  | cons s order ih =>
    intro g htopped hg hrooted hmem hjoins
    rw [List.foldlM_cons, bind_eq_ok_iff] at hjoins
    obtain ⟨next, hstep, hjoins⟩ := hjoins
    have hs : s ∈ all.elements := hmem s (by simp)
    have hrooted' := ((Lineage.joined_of_joinStep_eq_ok hs hrooted hstep).frame hs hrooted).1
    exact ih (htopped.joined hg hrooted hs hstep) (hg.joined hrooted hs hstep) hrooted' (fun t ht => hmem t (by simp [ht]))
      hjoins

end Schema

namespace Conversion

open Schema (Topped)

variable {w : Workspace} {supplementary generated : List Entries} {first second order : List Schema}
  {collected : Collected}

/-- What has been prepared has root objects with topmost properties. -/
theorem Prepares.topped (hprepares : Prepares supplementary generated first second g order h) :
    Topped h (schemasOf (first ++ second)).elements ∧ Rooted h (schemasOf (first ++ second)).elements := by
  have hsubset : ∀ s ∈ (schemasOf (first ++ second)).elements, s ∈ (first ++ second).reverse :=
    fun s hs => hprepares.mem_assembled hs
  refine Topped.foldlM order (fun s hs => ?_) (hprepares.assembled.roofed hsubset)
    (hprepares.assembled.parses.rooted.subset hsubset) (fun s hs => hprepares.mem_all_of_order hs) hprepares.joins
  exact Topped.parseEach hprepares.parseEach s (hsubset s hs)

/-- **Placements follow depths.** After a conversion, the properties of the root objects of the schemas to generate are
placed on top, whether they are a schema's own, refer to its parent or are inherited. The properties of all other objects
that the roots lead to are nested. -/
theorem convert_places_by_depth (hrun : (convert supplementary generated).run.run {} = (.ok collected, w)) :
    ∃ schemas v, (prepare supplementary generated).run.run {} = (.ok schemas, v) ∧ v.graph = w.graph ∧
      (∀ k, k ∈ collected.topLevel.elements ↔ ∃ s ∈ schemas.elements, s.rootItem w.graph = k) ∧
      ∀ s ∈ schemas.elements,
        (∃ o, w.graph.object? (s.rootItem w.graph) = some o ∧
          ∀ p ∈ o.properties.elements, (w.graph.property p).placement = .top) ∧
        ∀ k o, w.graph.Leads (.property s.root) (.item k) → k ≠ s.rootItem w.graph → w.graph.object? k = some o →
          ∀ p ∈ o.properties.elements, (w.graph.property p).placement = .nested := by
  obtain ⟨hresult, hgraph⟩ := run_convert supplementary generated {}
  rw [hrun] at hresult hgraph
  rcases hprepare : (prepare supplementary generated).run.run {} with ⟨e | schemas, v⟩
  · rw [hprepare] at hresult
    exact nomatch hresult
  rw [hprepare] at hresult hgraph
  obtain ⟨first, second, g, order, hprepares, rfl⟩ := prepare_eq_ok_iff.mp ⟨v, hprepare, rfl⟩
  obtain ⟨htopped, hrooted⟩ := hprepares.topped
  refine ⟨schemasOf second, v, rfl, hgraph.symm, fun k => ?_, fun s hs => ?_⟩
  · have hcollects := convert_collects supplementary generated
    rw [hprepare, hrun] at hcollects
    rw [hcollects.1]
    exact hcollects.2.2.2.2.1 k
  · rw [show w.graph = v.graph from hgraph]
    have hs' := hprepares.mem_all_of_generated hs
    have hroot := hrooted.hasRoot s hs'
    refine ⟨⟨_, hroot.object, fun p hp => (htopped s hs' p hp).top⟩, fun k o hk hne ho p hp => ?_⟩
    -- The way down to another object goes through a property of the root object.
    rcases Relation.ReflTransGen.cases_head hk with heq | ⟨x, hx, hk⟩
    · exact nomatch heq
    obtain rfl := Graph.link_property_iff.mp hx
    rcases Relation.ReflTransGen.cases_head hk with heq | ⟨y, hy, hk⟩
    · exact absurd (Node.item.inj heq).symm hne
    rcases Graph.link_item_iff.mp hy with ⟨e, he, -⟩ | ⟨c, hc, q, hq, rfl⟩
    · exact nomatch he.symm.trans (Graph.object?_eq_some_iff.mp hroot.object)
    rcases Relation.ReflTransGen.cases_head hk with heq | ⟨z, hz, hk⟩
    · exact nomatch heq
    obtain rfl := Graph.link_property_iff.mp hz
    rw [← Schema.rootObject_eq (Graph.object?_eq_some_iff.mpr hc)] at hq
    exact (htopped s hs' q hq).nested p (hk.tail (Graph.link_item_property_iff.mpr ⟨o, ho, hp⟩))

/-! ### A parcel with stops -/

section Parcels

open Schema (definition parse)
open Lineage (document documentData parse_document)

/-- A parcel is a document that must have a note. It belongs to a depot, and stops in towns. -/
def parcelData : Entries :=
  [(.text "id", .text "parcel"), (.text "parent", .text "depot"), (.text "extends", .list [.text "document"]),
    (.text "schema", .mapping [(.text "type", .text "object"), (.text "required", .list [.text "note"]),
      (.text "properties", .mapping [(.text "stops", .mapping [(.text "type", .text "array"), (.text "items", .mapping
        [(.text "type", .text "object"), (.text "properties", .mapping
          [(.text "town", .mapping (definition "string"))])])])])])]

/-- The parcel, and the graph with it and the document. -/
def parcel : Graph × Schema :=
  (Schema.read document.1 parcelData).toOption.getD default

theorem parse_parcel : parse document.1 parcelData = .ok parcel := by
  refine Schema.parse_eq_of_plan_eq_nil (eq_ok_of_isSome_toOption (by decide +kernel)) ?_
  rw [Sharing.Linked.plan, Sharing.plan, Sharing.sweepTree, Sharing.candidates_eq_insertionSort]
  decide +kernel

/-- The graph after the parcel has been joined with the document. -/
def parcelJoined : Graph :=
  ([document.2, parcel.2].foldlM (joinStep (schemasOf [document.2, parcel.2])) parcel.1).toOption.getD default

theorem prepares_parcel :
    Prepares [documentData] [parcelData] [document.2] [parcel.2] parcel.1 [document.2, parcel.2] parcelJoined := by
  refine ⟨⟨⟨document.1, ?_, ?_⟩, by decide +kernel⟩, ?_, eq_ok_of_isSome_toOption (by decide +kernel)⟩
  · simp only [Schema.parseEach, parse_document, bind, Except.bind]
    rfl
  · simp only [Schema.parseEach, parse_parcel, bind, Except.bind]
    rfl
  · rw [eq_ok_of_isSome_toOption (x := Lineage.order _ _) (by decide +kernel)]
    exact congrArg _ (by decide +kernel)

/-- The reference to the depot, the inherited note and the stops are on top, and the towns of the stops are nested. -/
theorem parcel_places_by_depth : ∃ collected w, (convert [documentData] [parcelData]).run.run {} = (.ok collected, w) ∧
    (parcel.2.rootObject w.graph).properties.keys = ["depot_id", "note", "stops"] ∧
    (∀ p ∈ (parcel.2.rootObject w.graph).properties.elements, (w.graph.property p).placement = .top) ∧
    ∃ k o, w.graph.object? k = some o ∧ o.properties.keys = ["town"] ∧
      ∀ p ∈ o.properties.elements, (w.graph.property p).placement = .nested := by
  obtain ⟨v, hprepare, hgraph⟩ := prepare_eq_ok_iff.mpr ⟨_, _, _, _, prepares_parcel, rfl⟩
  obtain ⟨hresult, hsame⟩ := run_convert [documentData] [parcelData] {}
  have hcollect : collect parcelJoined (schemasOf [parcel.2]) = .ok _ := eq_ok_of_isSome_toOption (by decide +kernel)
  rw [hprepare, hgraph] at hresult
  rw [hprepare, hgraph] at hsame
  have hrun : (convert [documentData] [parcelData]).run.run {} = (.ok _, _) := Prod.ext (hresult.trans hcollect) rfl
  obtain ⟨schemas, v', hprepare', hgraph', -, hplaces⟩ := convert_places_by_depth hrun
  obtain ⟨hok, -⟩ := Prod.mk.inj (hprepare.symm.trans hprepare')
  obtain rfl := Except.ok.inj hok
  obtain ⟨⟨o, ho, htop⟩, hnested⟩ := hplaces parcel.2 (by decide +kernel)
  have hleads : parcelJoined.Leads (.property parcel.2.root) (.item ⟨3⟩) := by
    have hlinks : .item ⟨5⟩ ∈ parcelJoined.children (.property parcel.2.root) ∧
        .property ⟨3⟩ ∈ parcelJoined.children (.item ⟨5⟩) ∧ .item ⟨4⟩ ∈ parcelJoined.children (.property ⟨3⟩) ∧
        .item ⟨3⟩ ∈ parcelJoined.children (.item ⟨4⟩) := by decide +kernel
    obtain ⟨hroot, hstops, harray, hstop⟩ := hlinks
    exact .head hroot (.head hstops (.head harray (.single hstop)))
  obtain ⟨stop, hstop, hkeys⟩ : ∃ stop, parcelJoined.object? ⟨3⟩ = some stop ∧ stop.properties.keys = ["town"] :=
    ⟨(parcelJoined.object? ⟨3⟩).getD default, by decide +kernel⟩
  rw [← hsame] at hleads hstop
  refine ⟨_, _, hrun, ?_, ?_, ⟨3⟩, stop, hstop, hkeys, hnested ⟨3⟩ stop hleads ?_ hstop⟩
  · rw [hsame]
    decide +kernel
  · rw [Schema.rootObject_eq ho]
    exact htop
  · rw [hsame]
    decide +kernel

end Parcels

end Conversion

end Schemata
