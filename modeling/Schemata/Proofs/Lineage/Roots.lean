import Schemata.Proofs.Graph.Confined
import Schemata.Proofs.Schema

/-!
# The root objects of schemas

The schemas that have been read into a graph (`Parses`) have root objects of their own: what one more schema adds are
new nodes, and sharing its equal subtrees does not touch the others. So each of them has a root object, which files
its properties by name, and no two of them have the same (`Rooted`).

A root object does not notice changes elsewhere in the graph (`HasRoot.kept`).
-/

namespace Schemata

open Schemata.Graph (Kept New Grown Confined)

variable {g h : Graph} {s t : Schema} {schemas : List Schema} {data : Entries}

namespace Schema

/-- The item that the root property of a schema holds. -/
def rootItem (g : Graph) (s : Schema) : ItemId :=
  (g.property s.root).item

/-- The root object of a schema. -/
def rootObject (g : Graph) (s : Schema) : ObjectNode :=
  (g.object? (s.rootItem g)).getD default

/-- The property of the root object of a schema under a name. -/
def property? (g : Graph) (s : Schema) (name : String) : Option PropertyId :=
  (s.rootObject g).properties.get? name

/-- A schema has a root object, and this files its properties by name. -/
structure HasRoot (g : Graph) (s : Schema) : Prop where
  root : g.Has s.root
  object : g.object? (s.rootItem g) = some (s.rootObject g)
  filed : (s.rootObject g).properties.Filed g.propertyName
  has : ∀ p ∈ (s.rootObject g).properties.elements, g.Has p

theorem rootObject_eq {o : ObjectNode} (ho : g.object? (s.rootItem g) = some o) : s.rootObject g = o := by
  rw [rootObject, ho, Option.getD_some]

namespace HasRoot

variable (hs : s.HasRoot g) (hgh : Kept g h)

include hs

theorem has_of_property? {name : String} {p : PropertyId} (hp : s.property? g name = some p) : g.Has p :=
  hs.has p (Registry.mem_elements_of_get? hp)

include hgh

theorem rootItem_eq : s.rootItem h = s.rootItem g := by
  rw [rootItem, rootItem, hgh.property_eq _ hs.root.property_lt]

/-- A root object that stays the same item stays the same object. -/
theorem rootObject_eq (hitem : h.item (s.rootItem g) = g.item (s.rootItem g)) : s.rootObject h = s.rootObject g := by
  rw [rootObject, rootObject, hs.rootItem_eq hgh, Graph.object?_congr hitem]

theorem kept (hitem : h.item (s.rootItem g) = g.item (s.rootItem g)) : s.HasRoot h := by
  have heq := hs.rootObject_eq hgh hitem
  refine ⟨hs.root.kept hgh, ?_, ?_, fun p hp => ?_⟩
  · rw [heq, hs.rootItem_eq hgh, Graph.object?_congr hitem]
    exact hs.object
  · rw [heq]
    exact hs.filed.congr fun p hp => (hs.has p hp).propertyName_eq hgh
  · rw [heq] at hp
    exact (hs.has p hp).kept hgh

end HasRoot

/-! ### Reading schemas -/

/-- One more schema is read: nothing that was there changes, and its root object is new. -/
theorem hasRoot_of_parse (hparse : parse g data = .ok (h, s)) :
    Grown g h ∧ s.HasRoot h ∧ New g h (.item (s.rootItem h)) := by
  rw [parse, bind_eq_ok_iff] at hparse
  obtain ⟨⟨g₀, t⟩, hread, hparse⟩ := hparse
  obtain ⟨rfl, rfl⟩ := Prod.mk.inj (Except.ok.inj hparse)
  obtain ⟨hplanted, hloose, o, ho, -⟩ := planted_read hread
  -- What is new is a region from which nothing leads out, so sharing stays within it.
  have hconfined : Confined t.root { x | New g g₀ x } g₀ (g₀.dedup t.root sharingLevel) :=
    Graph.confined_dedup hplanted.new_of_link hplanted.filed hloose.new hloose.not_link
  set h := g₀.dedup t.root sharingLevel
  have hnew : ∀ {x}, New g g₀ x → New g h x := by
    rintro (p | i) ⟨hge, hlt⟩
    · exact ⟨hge, hconfined.properties_size ▸ hlt⟩
    · exact ⟨hge, hconfined.items_size ▸ hlt⟩
  have hitem : New g g₀ (.item (t.rootItem h)) := hconfined.item_mem hloose.new
  have hobject : (h.item (t.rootItem h)).isObject = true := by
    rw [rootItem, hconfined.root_item, hconfined.isObject_eq, Graph.object?_eq_some_iff.mp ho]
    rfl
  obtain ⟨o', ho'⟩ := Graph.exists_object?_of_isObject hobject
  have hroot : t.rootObject h = o' := rootObject_eq ho'
  refine ⟨⟨?_, ?_, fun i hi => ?_, fun p hp => ?_⟩,
    ⟨⟨(hnew hloose.new).2, (hnew hitem).2⟩, by rw [hroot, ho'], hroot ▸ hconfined.filed hitem ho', fun p hp => ?_⟩,
    hnew hitem⟩
  · exact hplanted.grown.items_le.trans hconfined.items_size.ge
  · exact hplanted.grown.properties_le.trans hconfined.properties_size.ge
  · rw [hconfined.item_eq fun hi' => absurd hi (Nat.not_lt.mpr hi'.1), hplanted.grown.item_eq i hi]
  · rw [hconfined.property_eq fun hp' => absurd hp (Nat.not_lt.mpr hp'.1), hplanted.grown.property_eq p hp]
  · have hp : New g g₀ (.property p) :=
      hconfined.closed hitem (Graph.link_item_property_iff.mpr ⟨o', ho', hroot ▸ hp⟩)
    have hheld : New g g₀ (.item (h.property p).item) := hconfined.item_mem hp
    exact ⟨(hnew hp).2, (hnew hheld).2⟩

/-- A graph holds schemas that have been read into it, one after the other. -/
inductive Parses : Graph → List Schema → Prop where
  /-- No schema has been read. -/
  | start (g : Graph) : Parses g []
  /-- One more schema is read. -/
  | parse {g h : Graph} {schemas : List Schema} {data : Entries} {s : Schema} (hbefore : Parses g schemas)
    (hparse : Schema.parse g data = .ok (h, s)) : Parses h (s :: schemas)

/-- Schemas have root objects, and different schemas have different ones. -/
structure Rooted (g : Graph) (schemas : List Schema) : Prop where
  hasRoot : ∀ s ∈ schemas, s.HasRoot g
  inj : ∀ s ∈ schemas, ∀ t ∈ schemas, s.rootItem g = t.rootItem g → s = t

theorem Rooted.subset {given : List Schema} (hrooted : Rooted g schemas) (hsubset : ∀ s ∈ given, s ∈ schemas) :
    Rooted g given :=
  ⟨fun s hs => hrooted.hasRoot s (hsubset s hs),
    fun s hs t ht heq => hrooted.inj s (hsubset s hs) t (hsubset t ht) heq⟩

/-- **Schemas that have been read have root objects of their own.** -/
theorem Parses.rooted (hparses : Parses g schemas) : Rooted g schemas := by
  induction hparses with
  | start g => exact ⟨by simp, by simp⟩
  | @parse g h schemas data s _ hparse ih =>
    obtain ⟨hgrown, hs, hnew⟩ := hasRoot_of_parse hparse
    have hitem : ∀ t ∈ schemas, h.item (t.rootItem g) = g.item (t.rootItem g) :=
      fun t ht => hgrown.item_eq _ (ih.hasRoot t ht).root.item_lt
    have heq : ∀ t ∈ schemas, t.rootItem h = t.rootItem g := fun t ht => (ih.hasRoot t ht).rootItem_eq hgrown.kept
    have hne : ∀ t ∈ schemas, s.rootItem h ≠ t.rootItem h := by
      intro t ht hst
      have hlt := (ih.hasRoot t ht).root.item_lt
      have hge := hnew.1
      rw [hst, heq t ht] at hge
      exact absurd hlt (Nat.not_lt.mpr hge)
    refine ⟨fun t ht => ?_, fun t ht u hu htu => ?_⟩
    · rcases List.mem_cons.mp ht with rfl | ht
      · exact hs
      · exact (ih.hasRoot t ht).kept hgrown.kept (hitem t ht)
    · rcases List.mem_cons.mp ht with rfl | ht'
      · rcases List.mem_cons.mp hu with rfl | hu'
        · rfl
        · exact absurd htu (hne u hu')
      · rcases List.mem_cons.mp hu with rfl | hu'
        · exact absurd htu.symm (hne t ht')
        · rw [heq t ht', heq u hu'] at htu
          exact ih.inj t ht' u hu' htu

end Schema

end Schemata
