import Schemata.Proofs.Lineage.Discovery
import Schemata.Proofs.Lineage.Joining
import Schemata.Proofs.Lineage.Roots

/-!
# Joining one schema

A schema is joined with its bases in two steps: the properties of the bases are gathered, and what is gathered is added
to the root object of the schema. Gathering fails only if two bases hold different properties under one name (`Clash`),
and adding never fails. So a join either comes to what `Joined` says or reports such a name (`joinStep_cases`).

* `Schema.gathers_ownProperties`: the slice that is read off a base has the properties of its root object;
* `Schema.gathers_inherited`: what a schema inherits.
-/

namespace Schemata

open Schemata.Graph (Kept Replaces Merged)
open Registry (Gathers)

variable {g h : Graph} {all : Registry Schema} {s t : Schema} {name : String}

/-! ### The properties of a root object -/

namespace Graph

theorem innermost_eq {i : ItemId} {o : ObjectNode} (ho : g.object? i = some o) : g.innermost i = i := by
  rw [innermost]
  cases g.depth with
  | zero => rfl
  | succ depth =>
    rw [innermostWithin, object?_eq_some_iff.mp ho]

/-- A slice of one level has the property that it starts at, and nothing else. -/
theorem propertiesWithin_one (p : PropertyId) :
    g.propertiesWithin 1 p 0 = .ok ((∅ : Registry PropertyId).insert g.propertyName p) := by
  have hnested : ∀ (ps : List PropertyId) (refuse : DuplicateName → ItemError),
      ps.foldlM
        (fun found q => do
          let below ← g.propertiesWithin 0 q (0 - 1)
          (found.registerAll g.propertyName below).mapError refuse)
        (∅ : Registry PropertyId) = .ok ∅ := by
    intro ps refuse
    induction ps with
    | nil => rfl
    | cons q ps ih => exact ih
  rw [propertiesWithin]
  cases g.object? (g.innermost (g.property p).item) with
  | none => rfl
  | some o =>
    simp only [hnested]
    rfl

end Graph

namespace Schema

/-- The slice of a schema below its root property has the properties of its root object. -/
theorem gathers_ownProperties (hs : s.HasRoot g) {E : String → SchemaError → Prop} :
    Gathers g.propertyName E { p | p ∈ (s.rootObject g).properties.elements } (s.ownProperties g) := by
  have hwalk : g.slice s.root 2 1 =
      (s.rootObject g).properties.elements.foldlM
        (fun found q => do
          let below ← g.propertiesWithin 1 q 0
          (found.registerAll g.propertyName below).mapError (.ofDuplicateProperty (s.rootObject g).typeName))
        (∅ : Registry PropertyId) := by
    have hlevels : Graph.levels 2 g.properties.size = 2 := rfl
    rw [Graph.slice, hlevels, Graph.propertiesWithin]
    have hobject := hs.object
    rw [rootItem] at hobject
    rw [Graph.innermost_eq hobject, hobject]
    exact bind_pure _
  have hgathers : Gathers g.propertyName (fun _ _ => True) { p | p ∈ (s.rootObject g).properties.elements }
      (g.slice s.root 2 1) := by
    have hfold := Registry.gathers_foldlM (E := fun _ _ => True) (fun p => {p}) (fun q => g.propertiesWithin 1 q 0)
      (fun _ => .ofDuplicateProperty (s.rootObject g).typeName) (s.rootObject g).properties.elements (fun _ _ _ => trivial)
      (fun p _ => by
        rw [Graph.propertiesWithin_one]
        exact ⟨(Registry.filed_empty _).put rfl, fun q => List.mem_singleton⟩)
      ∅ ∅ ⟨Registry.filed_empty _, by simp⟩
    rw [hwalk]
    simpa using hfold
  -- The names of the properties tell them apart, so that nothing is refused.
  obtain ⟨found, hfound⟩ := hgathers.exists_eq_ok_iff.mpr fun p hp q hq => hs.filed.eq_of_name_eq hp hq
  rw [hfound] at hgathers
  rw [ownProperties, hfound]
  exact hgathers

/-- What a schema inherits: all properties of its bases, unless two of them have one name. -/
theorem gathers_inherited {bases : List Schema} (hbases : ∀ t ∈ bases, t.HasRoot g) :
    Gathers g.propertyName (fun name e => e = .ambiguousInheritance s.id name)
      { p | ∃ t ∈ bases, p ∈ (t.rootObject g).properties.elements } (s.inherited g bases) := by
  have hfold := Registry.gathers_foldlM (E := fun name e => e = .ambiguousInheritance s.id name)
    (fun t => { p | p ∈ (t.rootObject g).properties.elements }) (fun t : Schema => t.ownProperties g)
    (fun _ => .ofAmbiguousName s.id) bases (fun _ _ _ => rfl) (fun t ht => gathers_ownProperties (hbases t ht))
    ∅ ∅ ⟨Registry.filed_empty _, by simp⟩
  rw [Set.empty_union] at hfold
  exact hfold

end Schema

/-! ### One join -/

namespace Lineage

/-- Two bases of a schema hold different properties under one name. -/
def Clash (all : Registry Schema) (g : Graph) (s : Schema) (name : String) : Prop :=
  ∃ t u p q, Extends all s t ∧ Extends all s u ∧ t.property? g name = some p ∧ u.property? g name = some q ∧ p ≠ q

/-- A schema demands a value under a name: its root object in `g` requires the name, and one of its bases has a property
in `h`, without which nothing is added. -/
def Demands (all : Registry Schema) (g h : Graph) (s : Schema) (name : String) : Prop :=
  name ∈ (s.rootObject g).required ∧ ∃ t, Extends all s t ∧ (t.rootObject h).properties.isEmpty = false

/-- What a join of a schema with its bases comes to. -/
structure Joined (all : Registry Schema) (s : Schema) (g h : Graph) : Prop where
  kept : Kept g h
  /-- Only the root object changes. -/
  item_eq : ∀ i : ItemId, i.index < g.items.size → i ≠ s.rootItem g → h.item i = g.item i
  hasRoot : s.HasRoot h
  /-- Of the root object only the properties change. -/
  rootObject_eq : ∃ properties, s.rootObject h = { s.rootObject g with properties }
  /-- The bases hold the same property under a name. -/
  agree : ∀ name, ¬ Clash all g s name
  /-- The schema's own properties win. -/
  own : ∀ name p, s.property? g name = some p →
    ∃ q, s.property? h name = some q ∧ Replaces g h (Demands all g g s name) p q
  /-- Everything else comes from the bases. -/
  inherited : ∀ name t p, s.property? g name = none → Extends all s t → t.property? g name = some p →
    ∃ q, s.property? h name = some q ∧ Replaces g h (Demands all g g s name) p q
  /-- There is nothing else. -/
  none : ∀ name, s.property? g name = none → (∀ t, Extends all s t → t.property? g name = none) →
    s.property? h name = none

section Join

variable (hs : s.HasRoot g) (hbases : ∀ t, Extends all s t → t.HasRoot g)

include hs

/-- A schema without bases inherits nothing. -/
theorem joinStep_eq : joinStep all g s = (s.join g (basesOf all s)).map Prod.fst := by
  rw [joinStep]
  split_ifs with hempty
  · rw [List.isEmpty_iff.mp hempty, Schema.join, Schema.inherited]
    have hadd : g.addProperties (g.property s.root).item ∅ false = .ok g := by
      rw [Graph.addProperties, ← Schema.rootItem, Graph.object?_eq_some_iff.mp hs.object]
      rfl
    simp only [List.foldlM_nil, pure, Except.pure, bind, Except.bind, hadd, Except.mapError, Except.map]
  · rfl

include hbases

/-- What the root object of a schema holds after the properties of its bases have been added. -/
theorem joined_of_merged {added : Registry PropertyId} (hadded : added.Filed g.propertyName)
    (hmem : ∀ p, p ∈ added.elements ↔ ∃ t, Extends all s t ∧ p ∈ (t.rootObject g).properties.elements)
    (hmerged : Merged g (s.rootItem g) (s.rootObject g) added h) : Joined all s g h := by
  obtain ⟨hkept, hitem, properties, ho, hfiled, hhas, hrel⟩ := hmerged
  rw [← hs.rootItem_eq hkept] at ho
  have hroot : s.rootObject h = { s.rootObject g with properties } := Schema.rootObject_eq ho
  have hproperty? : ∀ name, s.property? h name = properties.get? name := fun name => by rw [Schema.property?, hroot]
  have hget : ∀ {t name p}, Extends all s t → t.property? g name = some p → added.get? name = some p := by
    intro t name p ht hp
    obtain ⟨hmem', rfl⟩ := (hbases t ht).filed.get?_eq_some_iff.mp hp
    exact hadded.get?_of_mem ((hmem p).mpr ⟨t, ht, hmem'⟩)
  have hdemands : ∀ {name}, name ∈ (s.rootObject g).required ∧ added.isEmpty = false ↔ Demands all g g s name := by
    intro name
    refine and_congr_right fun _ => ?_
    simp only [Registry.isEmpty_eq_false_iff, hmem]
    exact ⟨fun ⟨p, t, ht, hp⟩ => ⟨t, ht, p, hp⟩, fun ⟨t, ht, p, hp⟩ => ⟨p, t, ht, hp⟩⟩
  -- From here on only names matter: what was there, what is added, and what there is now.
  simp only [hdemands] at hrel
  refine ⟨hkept, hitem, ⟨hs.root.kept hkept, by rw [hroot, ho], by rwa [hroot], by rwa [hroot]⟩, ⟨properties, hroot⟩,
    ?_, ?_, ?_, ?_⟩
  · rintro name ⟨t, u, p, q, ht, hu, hp, hq, hne⟩
    exact hne (Option.some.inj ((hget ht hp).symm.trans (hget hu hq)))
  · intro name p hp
    have hname := hrel name
    rw [← Schema.property?, hp, Option.some_or] at hname
    rw [hproperty?]
    exact Graph.exists_of_some_rel hname
  · intro name t p hnone ht hp
    have hname := hrel name
    rw [← Schema.property?, hnone, Option.none_or, hget ht hp] at hname
    rw [hproperty?]
    exact Graph.exists_of_some_rel hname
  · intro name hnone hbases'
    have hnot : added.get? name = none := by
      by_contra hsome
      obtain ⟨p, hp⟩ := Option.ne_none_iff_exists'.mp hsome
      obtain ⟨hp', rfl⟩ := hadded.get?_eq_some_iff.mp hp
      obtain ⟨t, ht, hpt⟩ := (hmem p).mp hp'
      exact nomatch ((hbases t ht).filed.get?_of_mem hpt).symm.trans (hbases' t ht)
    have hname := hrel name
    rw [← Schema.property?, hnone, Option.none_or, hnot] at hname
    rw [hproperty?]
    cases hcase : properties.get? name with
    | none => rfl
    | some q => exact nomatch hcase ▸ hname

/-- **One join.** A schema is joined with its bases unless two of them hold different properties under one name. -/
theorem joinStep_cases :
    (∃ h, joinStep all g s = .ok h ∧ Joined all s g h) ∨
      ∃ name, joinStep all g s = .error (.ambiguousInheritance s.id name) ∧ Clash all g s name := by
  have hgathers := Schema.gathers_inherited (s := s) fun t ht => hbases t (mem_filterMap_bases.mp ht)
  rw [joinStep_eq hs, Schema.join, basesOf]
  cases hinherited : s.inherited g (s.bases.filterMap all.get?) with
  | error e =>
    rw [hinherited] at hgathers
    obtain ⟨p, ⟨t, ht, hp⟩, q, ⟨u, hu, hq⟩, hne, hname, rfl⟩ := hgathers
    have ht := mem_filterMap_bases.mp ht
    have hu := mem_filterMap_bases.mp hu
    refine .inr ⟨g.propertyName p, rfl, t, u, p, q, ht, hu, (hbases t ht).filed.get?_of_mem hp, ?_, hne⟩
    rw [hname]
    exact (hbases u hu).filed.get?_of_mem hq
  | ok added =>
    rw [hinherited] at hgathers
    obtain ⟨hadded, hmem⟩ := hgathers
    have hmem' : ∀ p, p ∈ added.elements ↔ ∃ t, Extends all s t ∧ p ∈ (t.rootObject g).properties.elements := by
      intro p
      refine (hmem p).trans (exists_congr fun t => and_congr_left' ?_)
      exact mem_filterMap_bases
    have hhas : ∀ p ∈ added.elements, g.Has p := by
      intro p hp
      obtain ⟨t, ht, hp⟩ := (hmem' p).mp hp
      exact (hbases t ht).has p hp
    obtain ⟨h, hadd, hmerged⟩ := Graph.exists_addProperties_eq_ok hs.object hs.filed hs.has hadded hhas
    rw [Schema.rootItem] at hadd
    refine .inl ⟨h, ?_, joined_of_merged hs hbases hadded hmem' hmerged⟩
    simp only [bind, Except.bind, hadd, Except.mapError, Except.map]
    rfl

end Join

end Lineage

end Schemata
