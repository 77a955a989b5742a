import Schemata.Proofs.Conversion

/-!
# What a conversion collects

A conversion reads schemas, joins them with their bases, and collects the objects of the schemas that are to be
generated: the root objects, which are found one level down, and the objects *nested* below them (`Schema.nested`).

Nested objects are filed strictly, also across schemas, so none of them is lost: two of them with one type name are
refused. Root objects are told apart by the identifiers of their schemas. But the nested objects are filed over the root
objects without a look at what was there. So a root object is lost if a nested object has its name, and this is all that
can be lost (`convert_collects`).
-/

namespace Schemata

open Schemata.Graph (Levelled Collects)
open Registry (Gathers)
open Schema (Canopy Rooted Assembled)

variable {g h : Graph} {s t : Schema} {schemas : List Schema} {R : Set Node} {rank : Node → Nat}

/-! ### Levels below a root object -/

namespace Schema

/-- The objects below the properties of the root object of a schema. -/
def nested (g : Graph) (s : Schema) : Set ItemId :=
  { k | ∃ p ∈ (s.rootObject g).properties.elements, k ∈ g.objectsBelow (.property p) }

namespace Canopy

variable (hg : Canopy g schemas R rank)

include hg

theorem mem_of_leads {x y : Node} (hx : x ∈ R) (hxy : g.Leads x y) : y ∈ R := by
  induction hxy with
  | refl => exact hx
  | tail _ hlink ih => exact hg.closed ih hlink

theorem inner_lt {i k : ItemId} (hi : .item i ∈ R) (hk : k ∈ g.inner i) :
    .item k ∈ R ∧ rank (.item k) < rank (.item i) := by
  obtain ⟨y, hy, rfl⟩ := List.mem_map.mp hk
  have hmem := hg.closed hi hy
  have hlt := hg.lt hi hy
  cases y with
  | item e => exact ⟨hmem, hlt⟩
  | property p =>
    have hheld : g.Link (.property p) (.item (g.property p).item) := Graph.link_property_iff.mpr rfl
    exact ⟨hg.closed hmem hheld, (hg.lt hmem hheld).trans hlt⟩

/-- The items of the region have levels, none as high as there are items: a root object is an item that is not in it. -/
theorem exists_levelled (hs : s ∈ schemas) (hroot : s.HasRoot g) :
    ∃ level : ItemId → Nat, ∀ p : PropertyId, .property p ∈ R →
      g.Levelled level (.item (g.property p).item) ∧ level (g.property p).item < g.items.size := by
  classical
  set crown := s.rootItem g
  have hcrown : crown.index < g.items.size := hroot.root.item_lt
  set items : Finset ItemId := ((Finset.range g.items.size).image ItemId.mk).erase crown with hitems
  have hmem : ∀ {i}, .item i ∈ R → i ∈ items := by
    intro i hi
    rw [hitems, Finset.mem_erase]
    have hnot : .item crown ∉ R := hg.root_notMem s hs
    refine ⟨fun heq => hnot (heq ▸ hi), ?_⟩
    exact Finset.mem_image.mpr ⟨i.index, Finset.mem_range.mpr (hg.present hi), rfl⟩
  have hcard : items.card ≤ g.items.size - 1 := by
    rw [hitems, Finset.card_erase_of_mem (Finset.mem_image.mpr ⟨crown.index, Finset.mem_range.mpr hcrown, rfl⟩)]
    exact Nat.sub_le_sub_right (Finset.card_image_le.trans (Finset.card_range _).le) 1
  obtain ⟨level, hbounds, hlevelled⟩ := Graph.exists_levelled (S := { i | Node.item i ∈ R })
    (fun i => rank (.item i)) (fun hi hk => hg.inner_lt hi hk) hmem hcard (Nat.sub_le _ _)
  refine ⟨level, fun p hp => ?_⟩
  have hitem : .item (g.property p).item ∈ R := hg.closed hp (Graph.link_property_iff.mpr rfl)
  have hlevel := (hbounds _ hitem).2
  exact ⟨hlevelled (hg.mem_of_leads hitem), by omega⟩

/-! ### The objects of one schema -/

/-- The objects below a root object are collected, or two of them have one name. -/
theorem collects_nested (hs : s ∈ schemas) (hroot : s.HasRoot g) :
    g.Collects (s.nested g) (g.objects s.root (-1) 1) := by
  obtain ⟨level, hlevel⟩ := hg.exists_levelled hs hroot
  have hobject : g.object? (g.property s.root).item = some (s.rootObject g) := hroot.object
  obtain ⟨n, hn⟩ : ∃ n, g.items.size = n + 1 := ⟨g.items.size - 1, by have := hroot.root.item_lt; omega⟩
  have hobjects : g.objects s.root (-1) 1 = g.objectsWithin g.items.size (g.property s.root).item 1 := rfl
  rw [hobjects, hn, Graph.objectsWithin, Graph.innermost_eq hobject, hobject]
  have hset : s.nested g = ∅ ∪ { k | ∃ p ∈ (s.rootObject g).properties.elements, k ∈ g.objectsBelow (.property p) } :=
    (Set.empty_union _).symm
  rw [hset]
  refine Registry.gathers_foldlM (fun p => g.objectsBelow (.property p)) _ _ _ (fun _ _ _ => ⟨_, rfl⟩)
    (fun p hp => ?_) ∅ ∅ g.collects_empty
  obtain ⟨hlevelled, hlt⟩ := hlevel p (hg.held s hs p hp)
  rw [Graph.objectsBelow_property]
  exact Graph.collects_objectsWithin n _ _ (by omega) hlevelled (by omega)

end Canopy

/-- The slice of one level has the root object, and nothing else. -/
theorem objects_root (hroot : s.HasRoot g) :
    g.objects s.root 1 0 = .ok ((∅ : Registry ItemId).insert g.typeName (s.rootItem g)) := by
  have hobject : g.object? (g.property s.root).item = some (s.rootObject g) := hroot.object
  have hwalk : ∀ (ps : List PropertyId) (found : Registry ItemId) (refuse : DuplicateName → ItemError),
      ps.foldlM
        (fun found p => do
          let nested ← g.objectsWithin 0 (g.property p).item (0 - 1)
          (found.registerAll g.typeName nested).mapError refuse)
        found = .ok found := by
    intro ps found refuse
    induction ps with
    | nil => rfl
    | cons p ps ih => exact ih
  have hlevels : Graph.levels 1 g.items.size = 1 := rfl
  rw [Graph.objects, hlevels, Graph.objectsWithin, Graph.innermost_eq hobject, hobject]
  exact hwalk _ _ _

end Schema

/-! ### The objects of all schemas -/

namespace Conversion

/-- Collect the nested objects of one more schema. -/
def collectNested (g : Graph) (found : Registry ItemId) (s : Schema) : Except SchemaError (Registry ItemId) := do
  let below ← s.objects g (-1) 1
  (found.registerAll g.typeName below).mapError fun e => .invalid s.id (.ofDuplicateObject s.id e)

/-- The root object of a schema is collected beside the nested ones, and never refused. -/
theorem collectSchema_eq (hroot : s.HasRoot g) (topLevel nested : Registry ItemId) :
    collectSchema g topLevel nested s =
      (collectNested g nested s).map fun nested => (topLevel.insert g.typeName (s.rootItem g), nested) := by
  have hobjects : s.objects g 1 0 = .ok ((∅ : Registry ItemId).insert g.typeName (s.rootItem g)) := by
    rw [Schema.objects, Schema.objects_root hroot]
    rfl
  simp only [collectSchema, collectNested, hobjects, bind, Except.bind]
  cases s.objects g (-1) 1 with
  | error e => rfl
  | ok below => cases nested.registerAll g.typeName below <;> rfl

theorem foldlM_collectSchema (ss : List Schema) (hroots : ∀ s ∈ ss, s.HasRoot g) : ∀ topLevel nested,
    ss.foldlM (fun (topLevel, nested) s => collectSchema g topLevel nested s) (topLevel, nested) =
      (ss.foldlM (collectNested g) nested).map fun nested =>
        ((ss.map (·.rootItem g)).foldl (Registry.insert g.typeName) topLevel, nested) := by
  induction ss with
  | nil => exact fun _ _ => rfl
  | cons s ss ih =>
    intro topLevel nested
    rw [List.foldlM_cons, List.foldlM_cons, List.map_cons, List.foldl_cons]
    change collectSchema g topLevel nested s >>= _ = _
    rw [collectSchema_eq (hroots s (by simp))]
    cases collectNested g nested s with
    | error e => rfl
    | ok both => exact ih (fun t ht => hroots t (by simp [ht])) _ both

/-- What a collection comes to: the nested objects, filed over the root objects. -/
theorem collect_eq {schemas : Registry Schema} (hroots : ∀ s ∈ schemas.elements, s.HasRoot g) :
    collect g schemas = (schemas.elements.foldlM (collectNested g) ∅).map fun nested =>
      { topLevel := Registry.ofList g.typeName (schemas.elements.map (·.rootItem g)),
        all := (Registry.ofList g.typeName (schemas.elements.map (·.rootItem g))).insertAll g.typeName nested } := by
  rw [collect, foldlM_collectSchema _ hroots]
  cases schemas.elements.foldlM (collectNested g) ∅ with
  | error e => rfl
  | ok nested => rfl

/-- The objects below the root objects of schemas. -/
def nested (g : Graph) (schemas : Registry Schema) : Set ItemId :=
  { k | ∃ s ∈ schemas.elements, k ∈ s.nested g }

/-- The errors of a collection: two objects in a schema have one name. -/
def IsDuplicate (schemas : Registry Schema) (name : String) (e : SchemaError) : Prop :=
  ∃ s ∈ schemas.elements, ∃ object, e = .invalid s.id (.duplicateObjectType object name)

/-- Nested objects are all collected, or two of them have one name. -/
theorem gathers_collectNested {given : List Schema} {schemas : Registry Schema} (hg : Canopy g given R rank)
    (hgiven : ∀ s ∈ schemas.elements, s ∈ given) (hroots : ∀ s ∈ schemas.elements, s.HasRoot g) :
    Gathers g.typeName (IsDuplicate schemas) (nested g schemas) (schemas.elements.foldlM (collectNested g) ∅) := by
  have hfold := Registry.gathers_foldlM (E := IsDuplicate schemas) (fun s => s.nested g) (fun s => s.objects g (-1) 1)
    (fun s e => .invalid s.id (.ofDuplicateObject s.id e)) schemas.elements (fun s hs d => ⟨s, hs, s.id, rfl⟩)
    (fun s hs => (hg.collects_nested (hgiven s hs) (hroots s hs)).mapError
      fun name e ⟨object, he⟩ => ⟨s, hs, object, by rw [he]⟩)
    ∅ ∅ ⟨Registry.filed_empty _, by simp⟩
  rw [Set.empty_union] at hfold
  exact hfold

/-- What is collected: the root objects beside the nested ones, unless one of these has the name. -/
theorem collect_cases {given : List Schema} {schemas : Registry Schema} (hg : Canopy g given R rank)
    (hrooted : Rooted g given) (hgiven : ∀ s ∈ schemas.elements, s ∈ given) (hschemas : schemas.Filed Schema.id) :
    (∃ collected, collect g schemas = .ok collected ∧
      (∀ j ∈ nested g schemas, ∀ k ∈ nested g schemas, g.typeName j = g.typeName k → j = k) ∧
      collected.topLevel.Filed g.typeName ∧ collected.all.Filed g.typeName ∧
      (∀ k, k ∈ collected.topLevel.elements ↔ ∃ s ∈ schemas.elements, s.rootItem g = k) ∧
      ∀ k, k ∈ collected.all.elements ↔ k ∈ nested g schemas ∨
        ∃ s ∈ schemas.elements, s.rootItem g = k ∧ ∀ j ∈ nested g schemas, g.typeName j ≠ s.id) ∨
    ∃ e, collect g schemas = .error e ∧ ∃ j ∈ nested g schemas, ∃ k ∈ nested g schemas,
      j ≠ k ∧ g.typeName j = g.typeName k ∧ IsDuplicate schemas (g.typeName j) e := by
  have hroots : ∀ s ∈ schemas.elements, s.HasRoot g := fun s hs => hrooted.hasRoot s (hgiven s hs)
  have hname : ∀ s ∈ schemas.elements, g.typeName (s.rootItem g) = s.id :=
    fun s hs => hg.typeName_eq s (hgiven s hs)
  have hgathers := gathers_collectNested hg hgiven hroots
  rw [collect_eq hroots]
  cases hfold : schemas.elements.foldlM (collectNested g) ∅ with
  | error e =>
    rw [hfold] at hgathers
    exact .inr ⟨e, rfl, hgathers⟩
  | ok below =>
    rw [hfold] at hgathers
    have hapart := hgathers.exists_eq_ok_iff.mp ⟨below, rfl⟩
    obtain ⟨hfiled, hmem⟩ := hgathers
    -- The names of the root objects are the identifiers of the schemas, so all root objects are kept.
    have hnodup : ((schemas.elements.map (·.rootItem g)).map g.typeName).Nodup := by
      have hnames : (schemas.elements.map (·.rootItem g)).map g.typeName = schemas.elements.map Schema.id := by
        rw [List.map_map]
        exact List.map_congr_left hname
      rw [hnames]
      exact hschemas.names_ascending.imp fun hlt => ne_of_lt hlt
    have htop : ∀ k, k ∈ (Registry.ofList g.typeName (schemas.elements.map (·.rootItem g))).elements ↔
        ∃ s ∈ schemas.elements, s.rootItem g = k := by
      intro k
      rw [Registry.mem_elements_ofList hnodup, List.mem_map]
    have hfree : ∀ name, below.get? name = none ↔ ∀ j ∈ nested g schemas, g.typeName j ≠ name := by
      intro name
      rw [Option.eq_none_iff_forall_ne_some]
      refine ⟨fun hnone j hj hjname => ?_, fun hnone j hj => ?_⟩
      · exact hnone j (hfiled.get?_eq_some_iff.mpr ⟨(hmem j).mpr hj, hjname⟩)
      · obtain ⟨hj, hjname⟩ := hfiled.get?_eq_some_iff.mp hj
        exact hnone j ((hmem j).mp hj) hjname
    have hroot := Registry.filed_ofList g.typeName (schemas.elements.map (·.rootItem g))
    refine .inl ⟨_, rfl, hapart, hroot, hroot.insertAll below, htop, fun k => ?_⟩
    rw [Registry.mem_elements_insertAll hroot hfiled, hmem, htop, hfree]
    refine or_congr_right ⟨?_, ?_⟩
    · rintro ⟨⟨s, hs, rfl⟩, hnone⟩
      exact ⟨s, hs, rfl, hname s hs ▸ hnone⟩
    · rintro ⟨s, hs, rfl, hnone⟩
      exact ⟨⟨s, hs, rfl⟩, (hname s hs).symm ▸ hnone⟩

/-- **Nested objects are never lost, and root objects are lost to nested ones only.** A conversion fails if its
schemas cannot be read or joined. Once they are, it fails exactly if two different nested objects have one type name,
and reports one that two have. Otherwise all objects are filed by their type names: the root objects by themselves, and
all nested objects with those root objects whose names no nested object has. -/
theorem convert_collects (supplementary generated : List Entries) :
    match (prepare supplementary generated).run.run {}, (convert supplementary generated).run.run {} with
    | (.error e, w), (result, w') => result = .error e ∧ w'.graph = w.graph
    | (.ok schemas, w), (.error e, w') => w'.graph = w.graph ∧
      ∃ j ∈ nested w.graph schemas, ∃ k ∈ nested w.graph schemas,
        j ≠ k ∧ w.graph.typeName j = w.graph.typeName k ∧ IsDuplicate schemas (w.graph.typeName j) e
    | (.ok schemas, w), (.ok collected, w') => w'.graph = w.graph ∧
      (∀ j ∈ nested w.graph schemas, ∀ k ∈ nested w.graph schemas,
        w.graph.typeName j = w.graph.typeName k → j = k) ∧
      collected.topLevel.Filed w.graph.typeName ∧ collected.all.Filed w.graph.typeName ∧
      (∀ k, k ∈ collected.topLevel.elements ↔ ∃ s ∈ schemas.elements, s.rootItem w.graph = k) ∧
      ∀ k, k ∈ collected.all.elements ↔ k ∈ nested w.graph schemas ∨
        ∃ s ∈ schemas.elements, s.rootItem w.graph = k ∧ ∀ j ∈ nested w.graph schemas, w.graph.typeName j ≠ s.id := by
  obtain ⟨hresult, hgraph⟩ := run_convert supplementary generated {}
  rcases hprepare : (prepare supplementary generated).run.run {} with ⟨e | schemas, w⟩
  · rw [hprepare] at hresult hgraph
    exact ⟨hresult, hgraph⟩
  rw [hprepare] at hresult hgraph
  obtain ⟨hschemas, given, R, rank, hg, hrooted, hgiven⟩ := exists_canopy_of_prepare hprepare
  have hcases := collect_cases hg hrooted hgiven hschemas
  rcases hconvert : (convert supplementary generated).run.run {} with ⟨e | collected, w'⟩
  · rw [hconvert] at hresult hgraph
    obtain ⟨collected, hcollect, -⟩ | ⟨e', hcollect, hcollision⟩ := hcases
    · exact nomatch hresult.trans hcollect
    · obtain rfl := Except.error.inj (hresult.trans hcollect)
      exact ⟨hgraph, hcollision⟩
  · rw [hconvert] at hresult hgraph
    obtain ⟨collected', hcollect, hcollected⟩ | ⟨e, hcollect, -⟩ := hcases
    · obtain rfl := Except.ok.inj (hresult.trans hcollect)
      exact ⟨hgraph, hcollected⟩
    · exact nomatch hresult.trans hcollect

/-! ### An order and its line -/

section Orders

open Schema (definition read parse)

/-- An order has a line. -/
def orderData : Entries :=
  [(.text "id", .text "order"), (.text "schema", .mapping
    [(.text "type", .text "object"), (.text "properties", .mapping [(.text "line", .mapping (definition "object"))])])]

/-- The line of an order as a schema of its own, with an amount. -/
def orderLineData : Entries :=
  [(.text "id", .text "order_line"), (.text "schema", .mapping
    [(.text "type", .text "object"), (.text "properties", .mapping [(.text "amount", .mapping (definition "number"))])])]

/-- The order, and the graph with it. -/
def order : Graph × Schema :=
  (read {} orderData).toOption.getD default

/-- The line, and the graph with both. -/
def orderLine : Graph × Schema :=
  (read order.1 orderLineData).toOption.getD default

theorem parse_order : parse {} orderData = .ok order := by
  refine Schema.parse_eq_of_plan_eq_nil (eq_ok_of_isSome_toOption (by decide +kernel)) ?_
  rw [Sharing.Linked.plan, Sharing.plan, Sharing.sweepTree, Sharing.candidates_eq_insertionSort]
  decide +kernel

theorem parse_orderLine : parse order.1 orderLineData = .ok orderLine := by
  refine Schema.parse_eq_of_plan_eq_nil (eq_ok_of_isSome_toOption (by decide +kernel)) ?_
  rw [Sharing.Linked.plan, Sharing.plan, Sharing.sweepTree, Sharing.candidates_eq_insertionSort]
  decide +kernel

/-- Both schemas. -/
def orders : Registry Schema :=
  Registry.ofList Schema.id [order.2, orderLine.2]

theorem run_parseAll_orders :
    ∃ journal, (parseAll [orderData, orderLineData]).run.run {} = (.ok orders, ⟨orderLine.1, journal⟩) := by
  have hfirst : (parseSchema orderData).run.run {} = (.ok order.2, ⟨order.1, _⟩) := run_parseSchema_of_ok parse_order
  have hsecond : ∀ journal, (parseSchema orderLineData).run.run ⟨order.1, journal⟩ =
      (.ok orderLine.2, ⟨orderLine.1, _⟩) := fun _ => run_parseSchema_of_ok parse_orderLine
  have hempty : (∅ : Registry Schema).register Schema.id order.2 = .ok (Registry.ofList Schema.id [order.2]) :=
    Registry.register_eq_ok_iff.mpr ⟨by simp, rfl⟩
  have hnext : (Registry.ofList Schema.id [order.2]).register Schema.id orderLine.2 = .ok orders :=
    Registry.register_eq_ok_iff.mpr ⟨by decide +kernel, rfl⟩
  rw [parseAll, List.foldlM_cons, Build.run_bind, Build.run_bind, hfirst]
  simp only [Build.run_ofExcept, hempty, Except.mapError]
  rw [List.foldlM_cons, Build.run_bind, Build.run_bind, hsecond]
  simp only [Build.run_ofExcept, hnext]
  exact ⟨_, rfl⟩

/-- Neither schema extends another, so that nothing is joined. -/
theorem run_prepare_orders : ∃ journal, (prepare [] [orderData, orderLineData]).run.run {} =
    (.ok orders, ⟨orderLine.1, journal⟩) := by
  obtain ⟨journal, hread⟩ := run_parseAll_orders
  have hnone : (parseAll []).run.run {} = (.ok ∅, {}) := rfl
  have htogether : together ∅ orders = .ok orders := by
    rw [eq_ok_of_isSome_toOption (x := together ∅ orders) (by decide +kernel)]
    exact congrArg _ (by decide +kernel)
  have horder : Lineage.order orders orders = .ok [orderLine.2, order.2] := by
    rw [eq_ok_of_isSome_toOption (x := Lineage.order orders orders) (by decide +kernel)]
    exact congrArg _ (by decide +kernel)
  have hbases : Lineage.basesOf orders order.2 = [] ∧ Lineage.basesOf orders orderLine.2 = [] := by decide +kernel
  have hjoins : [orderLine.2, order.2].foldlM (Lineage.joinStep orders) orderLine.1 = .ok orderLine.1 := by
    simp only [List.foldlM_cons, Lineage.joinStep, hbases, List.isEmpty_nil, if_true]
    rfl
  obtain ⟨journal', hresolve⟩ := Lineage.run_resolve_of_ok (w := ⟨orderLine.1, journal⟩) horder hjoins
  simp only [prepare, Build.run_bind, hnone, hread, Build.run_ofExcept, htogether, hresolve]
  exact ⟨journal', rfl⟩

/-- What is collected from the order and the line. -/
def collectedOrders : Collected :=
  (collect orderLine.1 orders).toOption.getD default

theorem run_convert_orders : ∃ w w', (prepare [] [orderData, orderLineData]).run.run {} = (.ok orders, w) ∧
    (convert [] [orderData, orderLineData]).run.run {} = (.ok collectedOrders, w') ∧ w.graph = orderLine.1 := by
  obtain ⟨journal, hprepare⟩ := run_prepare_orders
  have hresult := (run_convert [] [orderData, orderLineData] {}).1
  have hcollect : collect orderLine.1 orders = .ok collectedOrders := eq_ok_of_isSome_toOption (by decide +kernel)
  rw [hprepare] at hresult
  exact ⟨_, _, hprepare, Prod.ext (hresult.trans hcollect) rfl, rfl⟩

/-- The line in the order is collected under its name. -/
theorem convert_keeps_line_of_order : ∃ w w',
    (prepare [] [orderData, orderLineData]).run.run {} = (.ok orders, w) ∧
    (convert [] [orderData, orderLineData]).run.run {} = (.ok collectedOrders, w') ∧
    ∀ k ∈ order.2.nested w.graph, collectedOrders.all.get? (w.graph.typeName k) = some k := by
  obtain ⟨w, w', hprepare, hconvert, -⟩ := run_convert_orders
  have hcollects := convert_collects [] [orderData, orderLineData]
  rw [hprepare, hconvert] at hcollects
  obtain ⟨-, -, -, hfiled, -, hall⟩ := hcollects
  refine ⟨w, w', hprepare, hconvert, fun k hk => hfiled.get?_of_mem ((hall k).mpr (.inl ?_))⟩
  exact ⟨order.2, by decide +kernel, hk⟩

/-- **A root object is lost**: the line in the order takes the name of the schema of lines. -/
theorem convert_loses_order_line : ∃ w w',
    (prepare [] [orderData, orderLineData]).run.run {} = (.ok orders, w) ∧
    (convert [] [orderData, orderLineData]).run.run {} = (.ok collectedOrders, w') ∧
    orderLine.2 ∈ orders.elements ∧ orderLine.2.rootItem w.graph ∉ collectedOrders.all.elements := by
  obtain ⟨w, w', hprepare, hconvert, hgraph⟩ := run_convert_orders
  refine ⟨w, w', hprepare, hconvert, by decide +kernel, ?_⟩
  rw [hgraph]
  decide +kernel

end Orders

end Conversion

end Schemata
