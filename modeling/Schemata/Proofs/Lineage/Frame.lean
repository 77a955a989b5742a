import Schemata.Proofs.Graph.InPlace
import Schemata.Proofs.Lineage.Inheritance

/-!
# What inheritance leaves alone

A run of `Lineage.resolve` that fails keeps what it has done so far. So a run comes to joins of some of the reachable
schemas, whether it ends with an error or not (`exists_joins_of_resolve`).

A join adds nodes, and of the nodes that are there it changes one: the root object of its schema, which may get other
properties but loses no name (`Spares`). A scalar that is to be required is copied together with its property, so neither
the base that holds it nor a property that shares it sees a change.

`Schema.join` returns a new graph or none at all. A join can as well write to the graph that it is given
(`Schema.joinInPlace`): it looks at all bases before it writes, so it leaves the graph alone if it fails.
-/

namespace Schemata.Schema

/-- Add what a schema inherits from its bases to its root object in place, with the graph that is left in either case. -/
def joinInPlace (g : Graph) (s : Schema) (bases : List Schema) : Graph × Except SchemaError Nat :=
  match s.inherited g bases with
  | .error e => (g, .error e)
  | .ok added =>
    let (g, result) := g.addInPlace (g.property s.root).item added false
    (g, (result.mapError (.invalid s.id)).map fun _ => added.size)

/-- **A join in place** ends in the graph that a join gives, and in the graph before it if it fails. -/
theorem joinInPlace_eq (g : Graph) (s : Schema) (bases : List Schema) :
    s.joinInPlace g bases =
      match s.join g bases with
      | .ok (h, n) => (h, .ok n)
      | .error e => (g, .error e) := by
  cases hadded : s.inherited g bases with
  | error e =>
    rw [joinInPlace, join, hadded]
    rfl
  | ok added =>
    have hjoin : s.join g bases =
        ((g.addProperties (g.property s.root).item added false).mapError (.invalid s.id)).map
          fun h => (h, added.size) := by
      rw [join, hadded]
      exact bind_pure_comp (m := Except SchemaError) (fun h => (h, added.size)) _
    rw [hjoin, joinInPlace, hadded]
    simp only [Graph.addInPlace_eq]
    cases g.addProperties (g.property s.root).item added false <;> rfl

end Schemata.Schema

namespace Schemata.Lineage

open Schemata.Graph (Kept)
open Schema (Rooted Parses)

variable {all roots : Registry Schema} {g h k : Graph} {s : Schema} {schemas : List Schema} {w w' : Workspace}

/-! ### Runs that stop on the way -/

/-- A step that fails does so on the graph, and leaves the workspace as it was. -/
theorem eq_of_run_onGraph_eq_error {α : Type} {f : Graph → Except SchemaError (Graph × α)} {e : SchemaError}
    (hrun : (Build.onGraph f).run.run w = (.error e, w')) : f w.graph = .error e ∧ w' = w := by
  rw [Build.run_onGraph] at hrun
  cases hf : f w.graph with
  | error e' =>
    rw [hf] at hrun
    obtain ⟨hresult, hworkspace⟩ := Prod.mk.inj hrun
    exact ⟨congrArg Except.error (Except.error.inj hresult), hworkspace.symm⟩
  | ok result =>
    rw [hf] at hrun
    exact nomatch (Prod.mk.inj hrun).1

/-- Joins that fail leave the graph that the ones before the failing one came to. -/
theorem graph_of_run_joins_eq_error {e : SchemaError}
    (hrun : (schemas.forM (joinBases all)).run.run w = (.error e, w')) :
    ∃ joined, joined <+: schemas ∧ joined.foldlM (joinStep all) w.graph = .ok w'.graph := by
  cases hjoins : schemas.foldlM (joinStep all) w.graph with
  | ok graph =>
    obtain ⟨journal, hrun'⟩ := run_joins_of_ok hjoins
    exact nomatch (Prod.mk.inj (hrun'.symm.trans hrun)).1
  | error e' =>
    obtain ⟨earlier, s, later, b, rfl, hearlier, hstep⟩ := exists_of_foldlM_eq_error schemas w.graph hjoins
    obtain ⟨journal, hrun'⟩ := run_joins_of_ok hearlier
    have hfails : (joinBases all s).run.run ⟨b, journal⟩ = (.error e', ⟨b, journal⟩) := run_joinBases_of_error hstep
    rw [List.forM_eq_forM, List.forM_append, ← List.forM_eq_forM, Build.run_bind, hrun'] at hrun
    simp only [List.forM_eq_forM, List.forM_cons, Build.run_bind, hfails] at hrun
    obtain ⟨-, rfl⟩ := Prod.mk.inj hrun
    exact ⟨earlier, List.prefix_append _ _, hearlier⟩

/-- **However a run ends**, the graph is the one that joins of some reachable schemas came to. -/
theorem exists_joins_of_resolve (hall : all.Filed Schema.id) (hroots : ∀ r ∈ roots.elements, r ∈ all.elements)
    {result : Except SchemaError (List Schema)} (hrun : (resolve all roots).run.run w = (result, w')) :
    ∃ joined : List Schema, (∀ s ∈ joined, Reachable all roots s) ∧
      joined.foldlM (joinStep all) w.graph = .ok w'.graph := by
  cases horder : order all roots with
  | error e =>
    rw [resolve] at hrun
    simp only [Build.run_bind, Build.run_ofExcept, horder] at hrun
    obtain ⟨-, rfl⟩ := Prod.mk.inj hrun
    exact ⟨[], by simp, rfl⟩
  | ok schemas =>
    have hjoin := isJoinOrder_of_order_eq_ok hall hroots horder
    cases hjoins : schemas.foldlM (joinStep all) w.graph with
    | ok graph =>
      obtain ⟨journal, hrun'⟩ := run_resolve_of_ok horder hjoins
      obtain ⟨-, rfl⟩ := Prod.mk.inj (hrun'.symm.trans hrun)
      exact ⟨schemas, fun s hs => (hjoin.mem_iff s).mp hs, hjoins⟩
    | error e =>
      obtain ⟨v, hfails⟩ := run_joins_of_error hjoins
      rw [resolve] at hrun
      simp only [Build.run_bind, Build.run_ofExcept, horder, hfails] at hrun
      obtain ⟨-, rfl⟩ := Prod.mk.inj hrun
      obtain ⟨joined, hearlier, hjoined⟩ := graph_of_run_joins_eq_error hfails
      exact ⟨joined, fun s hs => (hjoin.mem_iff s).mp (hearlier.subset hs), hjoined⟩

/-! ### What joins leave alone -/

/-- Nodes are added to a graph, and of those that were there only root objects of the schemas in `J` change, if these
extend something: they may get other properties, but under all names that they had, and keep everything else. -/
structure Spares (J : Schema → Prop) (g h : Graph) : Prop where
  items_le : g.items.size ≤ h.items.size
  properties_le : g.properties.size ≤ h.properties.size
  property_eq : ∀ p : PropertyId, p.index < g.properties.size → h.property p = g.property p
  item_cases : ∀ i : ItemId, i.index < g.items.size → h.item i = g.item i ∨
    ∃ s o properties, J s ∧ s.bases ≠ [] ∧ i = s.rootItem g ∧ g.item i = .object o ∧
      h.item i = .object { o with properties } ∧
      ∀ name, o.properties.contains name = true → properties.contains name = true

namespace Spares

variable {J : Schema → Prop}

theorem refl (J : Schema → Prop) (g : Graph) : Spares J g g :=
  ⟨le_rfl, le_rfl, fun _ _ => rfl, fun _ _ => .inl rfl⟩

theorem kept (hgh : Spares J g h) : Kept g h := by
  refine ⟨hgh.items_le, hgh.properties_le, hgh.property_eq, fun i hi => ?_⟩
  rcases hgh.item_cases i hi with heq | ⟨s, o, properties, -, -, -, ho, ho', -⟩
  · exact .inl heq
  · exact .inr ⟨o, _, ho, ho'⟩

theorem trans (hgh : Spares J g h) (hhk : Spares J h k) (hroot : ∀ s, J s → s.rootItem h = s.rootItem g) :
    Spares J g k := by
  refine ⟨hgh.items_le.trans hhk.items_le, hgh.properties_le.trans hhk.properties_le, fun p hp => ?_, fun i hi => ?_⟩
  · rw [hhk.property_eq p (hp.trans_le hgh.properties_le), hgh.property_eq p hp]
  · rcases hhk.item_cases i (hi.trans_le hgh.items_le) with heq | ⟨s, o, properties, hs, hbases, rfl, ho, ho', hnames⟩
    · rw [heq]
      exact hgh.item_cases i hi
    · rcases hgh.item_cases _ hi with heq | ⟨t, o₁, properties₁, -, -, -, ho₁, ho₁', hnames₁⟩
      · exact .inr ⟨s, o, properties, hs, hbases, hroot s hs, heq ▸ ho, ho', hnames⟩
      · obtain rfl := Item.object.inj (ho.symm.trans ho₁')
        exact .inr ⟨s, o₁, properties, hs, hbases, hroot s hs, ho₁, ho',
          fun name hname => hnames name (hnames₁ name hname)⟩

end Spares

/-- One join spares everything but the root object of its schema. -/
theorem spares_joinStep {J : Schema → Prop} (hs : s ∈ all.elements) (hJ : J s) (hrooted : Rooted g all.elements)
    (hstep : joinStep all g s = .ok h) : Spares J g h := by
  have hjoined := joined_of_joinStep_eq_ok hs hrooted hstep
  have hroot := hrooted.hasRoot s hs
  refine ⟨hjoined.kept.items_le, hjoined.kept.properties_le, hjoined.kept.property_eq, fun i hi => ?_⟩
  by_cases hbases : s.bases = []
  · rw [joinStep, basesOf, hbases] at hstep
    exact .inl (Except.ok.inj hstep ▸ rfl)
  by_cases hne : i = s.rootItem g
  · obtain ⟨properties, heq⟩ := hjoined.rootObject_eq
    have hobject : h.object? (s.rootItem g) = some { s.rootObject g with properties } := by
      rw [← hroot.rootItem_eq hjoined.kept, ← heq]
      exact hjoined.hasRoot.object
    refine .inr ⟨s, s.rootObject g, properties, hJ, hbases, hne, ?_, ?_, fun name hname => ?_⟩
    · exact hne ▸ Graph.object?_eq_some_iff.mp hroot.object
    · exact hne ▸ Graph.object?_eq_some_iff.mp hobject
    · obtain ⟨p, hp⟩ := Option.isSome_iff_exists.mp hname
      obtain ⟨q, hq, -⟩ := hjoined.own name p hp
      rw [Schema.property?, heq] at hq
      exact Option.isSome_of_eq_some hq
  · exact .inl (hjoined.item_eq i hi hne)

/-- All joins spare everything but the root objects of their schemas. -/
theorem spares_foldlM {J : Schema → Prop} (hJ : ∀ s, J s → s ∈ all.elements) (schemas : List Schema) :
    ∀ g, (∀ s ∈ schemas, J s) → Rooted g all.elements → schemas.foldlM (joinStep all) g = .ok h → Spares J g h := by
  induction schemas with
  | nil =>
    intro g _ _ hjoins
    exact Except.ok.inj hjoins ▸ .refl J g
  | cons s schemas ih =>
    intro g hmem hrooted hjoins
    rw [List.foldlM_cons, bind_eq_ok_iff] at hjoins
    obtain ⟨next, hstep, hjoins⟩ := hjoins
    have hs : J s := hmem s (by simp)
    have hfirst := spares_joinStep (hJ s hs) hs hrooted hstep
    have hrooted' := ((joined_of_joinStep_eq_ok (hJ s hs) hrooted hstep).frame (hJ s hs) hrooted).1
    refine hfirst.trans (ih next (fun t ht => hmem t (by simp [ht])) hrooted' hjoins) fun t ht => ?_
    exact (hrooted.hasRoot t (hJ t ht)).rootItem_eq hfirst.kept

/-- **Inheritance never touches a base.** However a run ends, it spares everything but the root objects of reachable
schemas that extend something, and these only gain names. So a scalar stays as it is for every property that holds it.
A single join that fails leaves the workspace as it was, even if it writes in place; and if it does not fail, it comes to
the same in place. -/
theorem resolve_spares {parsed : List Schema} (hparses : Parses w.graph parsed) (hall : all.Filed Schema.id)
    (hparsed : ∀ s ∈ all.elements, s ∈ parsed) (hroots : ∀ r ∈ roots.elements, r ∈ all.elements)
    {result : Except SchemaError (List Schema)} (hrun : (resolve all roots).run.run w = (result, w')) :
    Spares (Reachable all roots) w.graph w'.graph ∧
    (∀ p scalar, w.graph.Has p → w.graph.held p = .scalar scalar → w'.graph.held p = .scalar scalar) ∧
    ∀ (s : Schema) (bases : List Schema),
      (∀ (v v' : Workspace) (e : SchemaError), (Build.onGraph fun g => s.join g bases).run.run v = (.error e, v') →
        v' = v ∧ s.joinInPlace v.graph bases = (v.graph, .error e)) ∧
      ∀ (g h : Graph) (n : Nat), s.join g bases = .ok (h, n) → s.joinInPlace g bases = (h, .ok n) := by
  obtain ⟨joined, hjoined, hjoins⟩ := exists_joins_of_resolve hall hroots hrun
  have hspares : Spares (Reachable all roots) w.graph w'.graph :=
    spares_foldlM (fun s hs => hs.mem_elements hroots) joined w.graph hjoined (hparses.rooted.subset hparsed) hjoins
  refine ⟨hspares, fun p scalar hp hscalar => ?_, fun s bases => ⟨fun v v' e hfails => ?_, fun g h n hjoin => ?_⟩⟩
  · exact hp.held_eq_scalar hspares.kept hscalar
  · obtain ⟨hjoin, hsame⟩ := eq_of_run_onGraph_eq_error hfails
    exact ⟨hsame, by rw [Schema.joinInPlace_eq, hjoin]⟩
  · rw [Schema.joinInPlace_eq, hjoin]

/-- An invoice requires the note that it inherits, and the document goes on without requiring it. -/
theorem document_keeps_note :
    let run := (resolve family family).run.run ⟨invoice.1, []⟩
    invoice.1.held ⟨0⟩ = .scalar { kind := .string } ∧ run.2.graph.held ⟨0⟩ = .scalar { kind := .string } ∧
      invoice.2.property? run.2.graph "note" = some ⟨3⟩ ∧
      run.2.graph.held ⟨3⟩ = .scalar { kind := .string, required := true } := by
  intro run
  have hparses : Parses invoice.1 [invoice.2, document.2] := (Parses.start {}).parse parse_document |>.parse parse_invoice
  have hnote : invoice.1.held ⟨0⟩ = .scalar { kind := .string } := by decide +kernel
  obtain ⟨-, hheld, -⟩ := resolve_spares (w := ⟨invoice.1, []⟩) hparses (Registry.filed_ofList _ _) (by decide +kernel)
    (fun _ hr => hr) (show run = (run.1, run.2) from rfl)
  refine ⟨hnote, hheld ⟨0⟩ _ ⟨?_, ?_⟩ hnote, ?_, ?_⟩
  · decide +kernel
  · decide +kernel
  · decide +kernel
  · decide +kernel

end Schemata.Lineage
