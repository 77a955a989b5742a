import Mathlib.Data.Option.Basic
import Schemata.Graph.Merge
import Schemata.Proofs.Graph.Planting
import Schemata.Proofs.Result

/-!
# Adding properties to an object

When properties are added to an object, its own properties win, and a property that the object wants to be required is
replaced by a copy if it could be null. Nothing else changes: the copies are new nodes, and of the nodes that were there
only the object itself is another (`Graph.Merged`).

* `requireAll_spec`: what the walk over the candidates comes to;
* `addProperties_singleton_eq_ok_iff`: when a property that cannot be null is added strictly;
* `exists_addProperties_eq_ok`: leniently, properties can always be added, and what the object then holds under each
  name.
-/

namespace Schemata.Graph

variable {b g h : Graph} {i j : ItemId} {p q : PropertyId} {o : ObjectNode} {required : List String}

/-! ### Graphs that keep their nodes -/

/-- Nodes have been added to `g`, and of the old ones only objects have changed. -/
structure Kept (g h : Graph) : Prop where
  items_le : g.items.size ≤ h.items.size
  properties_le : g.properties.size ≤ h.properties.size
  property_eq : ∀ p : PropertyId, p.index < g.properties.size → h.property p = g.property p
  item_cases : ∀ i : ItemId, i.index < g.items.size →
    h.item i = g.item i ∨ ∃ o o', g.item i = .object o ∧ h.item i = .object o'

theorem Grown.kept (hgh : Grown g h) : Kept g h :=
  ⟨hgh.items_le, hgh.properties_le, hgh.property_eq, fun i hi => .inl (hgh.item_eq i hi)⟩

theorem Kept.trans {k : Graph} (hgh : Kept g h) (hhk : Kept h k) : Kept g k := by
  refine ⟨hgh.items_le.trans hhk.items_le, hgh.properties_le.trans hhk.properties_le, fun p hp => ?_, fun i hi => ?_⟩
  · rw [hhk.property_eq p (hp.trans_le hgh.properties_le), hgh.property_eq p hp]
  · rcases hhk.item_cases i (hi.trans_le hgh.items_le) with heq | ⟨o, o', ho, ho'⟩
    · rw [heq]
      exact hgh.item_cases i hi
    · rcases hgh.item_cases i hi with heq | ⟨o₁, o₂, ho₁, -⟩
      · exact .inr ⟨o, o', heq ▸ ho, ho'⟩
      · exact .inr ⟨o₁, o', ho₁, ho'⟩

/-- An object is updated. -/
theorem kept_setItem {o' : ObjectNode} (hi : g.object? i = some o) : Kept g (g.setItem i (.object o')) := by
  refine ⟨by rw [size_items_setItem], le_rfl, fun _ _ => rfl, fun j _ => ?_⟩
  by_cases hji : j = i
  · subst hji
    exact .inr ⟨o, o', object?_eq_some_iff.mp hi, item_setItem_self _ (lt_of_object? hi)⟩
  · exact .inl (item_setItem_of_ne _ hji)

/-- A property and the item that it holds are nodes of a graph. -/
structure Has (g : Graph) (p : PropertyId) : Prop where
  property_lt : p.index < g.properties.size
  item_lt : (g.property p).item.index < g.items.size

section Kept

variable (hp : g.Has p) (hgh : Kept g h)

include hp hgh

theorem Has.kept : h.Has p := by
  refine ⟨hp.property_lt.trans_le hgh.properties_le, ?_⟩
  rw [hgh.property_eq p hp.property_lt]
  exact hp.item_lt.trans_le hgh.items_le

theorem Has.propertyName_eq : h.propertyName p = g.propertyName p := by
  rw [propertyName, propertyName, hgh.property_eq p hp.property_lt]

/-- Scalars stay as they are, and so does what can be null. -/
theorem Has.held_eq_scalar {s : Scalar} (hs : g.held p = .scalar s) : h.held p = .scalar s := by
  rw [held] at hs
  rw [held, hgh.property_eq p hp.property_lt]
  rcases hgh.item_cases _ hp.item_lt with heq | ⟨o, o', ho, -⟩
  · rw [heq, hs]
  · cases hs.symm.trans ho

theorem Has.isNull_eq : (h.held p).isNull = (g.held p).isNull := by
  rw [held, held, hgh.property_eq p hp.property_lt]
  rcases hgh.item_cases _ hp.item_lt with heq | ⟨o, o', ho, ho'⟩
  · rw [heq]
  · rw [ho, ho']
    rfl

end Kept

/-! ### Required copies -/

/-- In `g`, the property `q` is a copy of `p` that is new since `b`. It holds a scalar that is new as well, a copy of the
one that `p` holds, and differs from it in that a value must be present. -/
structure RequiredCopy (b g : Graph) (p q : PropertyId) : Prop where
  new : New b g (.property q)
  new_item : New b g (.item (g.property q).item)
  property_eq : g.property q = { g.property p with item := (g.property q).item }
  held_eq : ∃ s : Scalar, s.isNull = true ∧ g.held p = .scalar s ∧ g.held q = .scalar { s with required := true }

theorem RequiredCopy.has (hpq : RequiredCopy b g p q) : g.Has q :=
  ⟨hpq.new.2, hpq.new_item.2⟩

theorem RequiredCopy.propertyName_eq (hpq : RequiredCopy b g p q) : g.propertyName q = g.propertyName p := by
  rw [propertyName, hpq.property_eq, propertyName]

/-- A copy stays one. -/
theorem RequiredCopy.kept (hpq : RequiredCopy b g p q) (hp : g.Has p) (hgh : Kept g h) : RequiredCopy b h p q := by
  have hq : h.property q = g.property q := hgh.property_eq q hpq.new.2
  obtain ⟨s, hnull, hs, hs'⟩ := hpq.held_eq
  refine ⟨⟨hpq.new.1, hpq.new.2.trans_le hgh.properties_le⟩, ?_, ?_, s, hnull, hp.held_eq_scalar hgh hs,
    hpq.has.held_eq_scalar hgh hs'⟩
  · rw [hq]
    exact ⟨hpq.new_item.1, hpq.new_item.2.trans_le hgh.items_le⟩
  · rw [hq, hgh.property_eq p hp.property_lt]
    exact hpq.property_eq

/-- What is new since a later graph is new since an earlier one. -/
theorem RequiredCopy.of_kept (hpq : RequiredCopy b g p q) {a : Graph} (hab : Kept a b) : RequiredCopy a g p q :=
  ⟨⟨hab.properties_le.trans hpq.new.1, hpq.new.2⟩, ⟨hab.items_le.trans hpq.new_item.1, hpq.new_item.2⟩,
    hpq.property_eq, hpq.held_eq⟩

/-! ### Leaves -/

/-- The graph with one more scalar, and a property that holds it. -/
def addLeaf (g : Graph) (field : Field) (scalar : Scalar) : Graph × PropertyId :=
  (g.addItem (.scalar scalar)).1.addProperty { toField := field, item := (g.addItem (.scalar scalar)).2 }

theorem grown_addLeaf (g : Graph) (field : Field) (scalar : Scalar) : Grown g (g.addLeaf field scalar).1 :=
  (grown_addItem g _).trans (grown_addProperty _ _)

theorem property_addLeaf (g : Graph) (field : Field) (scalar : Scalar) :
    (g.addLeaf field scalar).1.property (g.addLeaf field scalar).2 = { toField := field, item := ⟨g.items.size⟩ } :=
  property_addProperty_self _ _

theorem held_addLeaf (g : Graph) (field : Field) (scalar : Scalar) :
    (g.addLeaf field scalar).1.held (g.addLeaf field scalar).2 = .scalar scalar := by
  rw [addLeaf, held, property_addProperty_self, item_addProperty, item_addItem_self]

/-- A required copy is a leaf. There is nothing to require of a property that cannot be null. -/
theorem requiredCopy?_eq (g : Graph) (p : PropertyId) :
    g.requiredCopy? p = match g.held p with
      | .scalar s => if s.isNull then some (g.addLeaf (g.property p).toField { s with required := true }) else none
      | _ => none := by
  have hcopy : (g.copyProperty p).1.property (g.copyProperty p).2 = g.property p := property_addProperty_self g _
  have hitem : (g.copyProperty p).1.item (g.property p).item = g.held p := rfl
  have hset : ∀ x y : Property, (g.properties.push x).setIfInBounds g.properties.size y = g.properties.push y := by
    intro x y
    simp [Array.setIfInBounds, Array.set_push]
  simp only [requiredCopy?, requireProperty?, hcopy, hitem]
  cases g.held p with
  | array e => rfl
  | object o => rfl
  | scalar s =>
    by_cases hnull : s.isNull = true
    · simp only [Item.isNull, hnull, if_true, Option.map_some, copyProperty, addProperty, addItem, setProperty, hset]
      rfl
    · simp only [Item.isNull, hnull, Bool.false_eq_true, if_false, Option.map_none]

theorem requiredCopy?_eq_none (hp : (g.held p).isNull = false) : g.requiredCopy? p = none := by
  rw [requiredCopy?_eq]
  cases hheld : g.held p with
  | array e => rfl
  | object o => rfl
  | scalar s =>
    rw [hheld] at hp
    exact if_neg (Bool.eq_false_iff.mp hp)

/-- What has a required copy holds a scalar that can be null. -/
theorem requiredCopy?_eq_some_iff {copied : Graph × PropertyId} :
    g.requiredCopy? p = some copied ↔ ∃ s : Scalar, g.held p = .scalar s ∧ s.isNull = true ∧
      copied = g.addLeaf (g.property p).toField { s with required := true } := by
  rw [requiredCopy?_eq]
  cases g.held p with
  | array e => simp
  | object o => simp
  | scalar s =>
    by_cases hnull : s.isNull = true
    · simp only [hnull, if_true, Option.some.injEq, Item.scalar.injEq, true_and, exists_eq_left']
      exact eq_comm
    · simp only [hnull, Bool.false_eq_true, if_false, reduceCtorEq, false_iff, not_exists, not_and]
      rintro t ht hnull'
      exact absurd hnull' (Item.scalar.inj ht ▸ hnull)

/-- A leaf with the required scalar is a required copy. -/
theorem requiredCopy_addLeaf {s : Scalar} (hp : g.Has p) (hs : g.held p = .scalar s) (hnull : s.isNull = true) :
    RequiredCopy g (g.addLeaf (g.property p).toField { s with required := true }).1 p
      (g.addLeaf (g.property p).toField { s with required := true }).2 := by
  have hgrown : Grown g (g.addLeaf (g.property p).toField { s with required := true }).1 := g.grown_addLeaf _ _
  constructor
  case new => exact ⟨le_rfl, by simp [addLeaf]⟩
  case new_item =>
    rw [property_addLeaf]
    exact ⟨le_rfl, by simp [addLeaf]⟩
  case property_eq => rw [property_addLeaf, hgrown.property_eq p hp.property_lt]
  case held_eq => exact ⟨s, hnull, hp.held_eq_scalar hgrown.kept hs, g.held_addLeaf _ _⟩

/-- A property that can be null has a required copy. -/
theorem exists_requiredCopy?_eq_some (hp : g.Has p) (hnull : (g.held p).isNull = true) :
    ∃ h q, g.requiredCopy? p = some (h, q) ∧ Grown g h ∧ RequiredCopy g h p q := by
  obtain ⟨s, hs⟩ : ∃ s, g.held p = .scalar s := by
    cases hitem : g.held p with
    | scalar s => exact ⟨s, rfl⟩
    | array e => exact nomatch hitem ▸ hnull
    | object o => exact nomatch hitem ▸ hnull
  rw [hs] at hnull
  exact ⟨_, _, requiredCopy?_eq_some_iff.mpr ⟨s, hs, hnull, rfl⟩, g.grown_addLeaf _ _, requiredCopy_addLeaf hp hs hnull⟩

/-! ### All candidates -/

theorem rel_imp {α β : Type} {r r' : α → β → Prop} {a : Option α} {c : Option β} (hrel : Option.Rel r a c)
    (himp : ∀ x y, a = some x → r x y → r' x y) : Option.Rel r' a c := by
  cases hrel with
  | none => exact .none
  | some hxy => exact .some (himp _ _ rfl hxy)

theorem exists_of_rel_some {α β : Type} {r : α → β → Prop} {a : Option α} {y : β} (hrel : Option.Rel r a (some y)) :
    ∃ x, a = some x ∧ r x y := by
  cases hrel with
  | some hxy => exact ⟨_, rfl, hxy⟩

theorem exists_of_some_rel {α β : Type} {r : α → β → Prop} {x : α} {c : Option β} (hrel : Option.Rel r (some x) c) :
    ∃ y, c = some y ∧ r x y := by
  cases hrel with
  | some hxy => exact ⟨_, rfl, hxy⟩

theorem eq_none_of_none_rel {α β : Type} {r : α → β → Prop} {c : Option β} (hrel : Option.Rel r none c) : c = none := by
  cases hrel with
  | none => rfl

/-- What an object holds in place of a property: a required copy if the property is to be required and can be null, and
the property itself otherwise. -/
structure Replaces (b g : Graph) (must : Prop) (p q : PropertyId) : Prop where
  copy : must → (g.held p).isNull = true → RequiredCopy b g p q
  same : ¬ (must ∧ (g.held p).isNull = true) → q = p

theorem Replaces.kept {must : Prop} (hpq : Replaces b g must p q) (hp : g.Has p) (hgh : Kept g h) :
    Replaces b h must p q := by
  refine ⟨fun hmust hnull => ?_, fun hnot => ?_⟩
  · rw [hp.isNull_eq hgh] at hnull
    exact (hpq.copy hmust hnull).kept hp hgh
  · rw [hp.isNull_eq hgh] at hnot
    exact hpq.same hnot

theorem Replaces.of_kept {must : Prop} (hpq : Replaces b g must p q) {a : Graph} (hab : Kept a b) :
    Replaces a g must p q :=
  ⟨fun hmust hnull => (hpq.copy hmust hnull).of_kept hab, hpq.same⟩

theorem Replaces.congr {must must' : Prop} (hpq : Replaces b g must p q) (hiff : must ↔ must') :
    Replaces b g must' p q := by
  rwa [← propext hiff]

theorem Replaces.has {must : Prop} (hpq : Replaces b g must p q) (hp : g.Has p) : g.Has q := by
  by_cases h : must ∧ (g.held p).isNull = true
  · exact (hpq.copy h.1 h.2).has
  · rwa [hpq.same h]

/-- What the walk over the candidates comes to: every candidate is replaced, and everything else stays. -/
structure RequireAll (g : Graph) (required : List String) (before : Registry PropertyId) (ps : List PropertyId)
    (h : Graph) (after : Registry PropertyId) : Prop where
  grown : Grown g h
  filed : after.Filed h.propertyName
  get?_mem : ∀ p ∈ ps, ∃ q, after.get? (g.propertyName p) = some q ∧
    Replaces g h (g.propertyName p ∈ required) p q
  get?_notMem : ∀ name, (∀ p ∈ ps, g.propertyName p ≠ name) → after.get? name = before.get? name

section Cons

variable {filed after : Registry PropertyId} {ps : List PropertyId} (hp : g.Has p)
  (hother : ∀ r ∈ ps, g.propertyName r ≠ g.propertyName p)

include hp hother

/-- The first candidate is replaced by a copy. Nothing later has its name, so the copy stays. -/
theorem RequireAll.cons_of_copy {k : Graph} (hps : ∀ r ∈ ps, g.Has r)
    (hcopied : g.propertyName p ∈ required ∧ (g.held p).isNull = true) (hgrown : Grown g h)
    (hcopy : RequiredCopy g h p q) (hrest : RequireAll h required (filed.insert h.propertyName q) ps k after) :
    RequireAll g required filed (p :: ps) k after := by
  have hnames : ∀ r ∈ ps, h.propertyName r = g.propertyName r := fun r hr => (hps r hr).propertyName_eq hgrown.kept
  have hname : h.propertyName q = g.propertyName p := hcopy.propertyName_eq.trans (hp.propertyName_eq hgrown.kept)
  have hlater : ∀ name, (∀ r ∈ ps, g.propertyName r ≠ name) →
      after.get? name = (filed.insert h.propertyName q).get? name := fun name hnot =>
    hrest.get?_notMem name fun r hr => hnames r hr ▸ hnot r hr
  refine ⟨hgrown.trans hrest.grown, hrest.filed, fun r hr => ?_, fun name hnot => ?_⟩
  · rcases List.mem_cons.mp hr with rfl | hr
    · refine ⟨q, ?_, fun _ _ => hcopy.kept (hp.kept hgrown.kept) hrest.grown.kept, fun hnot => ?_⟩
      · rw [hlater _ hother, Registry.insert, Registry.get?_put, if_pos hname.symm]
      · rw [hp.isNull_eq (hgrown.trans hrest.grown).kept] at hnot
        exact absurd hcopied hnot
    · obtain ⟨q', hq', hreplaces⟩ := hrest.get?_mem r hr
      rw [hnames r hr] at hq' hreplaces
      exact ⟨q', hq', hreplaces.of_kept hgrown.kept⟩
  · rw [hlater name fun r hr => hnot r (List.mem_cons_of_mem _ hr), Registry.insert, Registry.get?_put, hname,
      if_neg (Ne.symm (hnot p (by simp)))]

/-- The first candidate stays. -/
theorem RequireAll.cons_of_not (hnot : ¬ (g.propertyName p ∈ required ∧ (g.held p).isNull = true))
    (hget : filed.get? (g.propertyName p) = some p) (hrest : RequireAll g required filed ps h after) :
    RequireAll g required filed (p :: ps) h after := by
  refine ⟨hrest.grown, hrest.filed, fun r hr => ?_, fun name hname => ?_⟩
  · rcases List.mem_cons.mp hr with rfl | hr
    · refine ⟨r, ?_, fun hmust hnull => ?_, fun _ => rfl⟩
      · rw [hrest.get?_notMem _ hother]
        exact hget
      · rw [hp.isNull_eq hrest.grown.kept] at hnull
        exact absurd ⟨hmust, hnull⟩ hnot
    · exact hrest.get?_mem r hr
  · exact hrest.get?_notMem name fun r hr => hname r (List.mem_cons_of_mem _ hr)

end Cons

theorem requireAll_spec (ps : List PropertyId) : ∀ (g : Graph) (filed : Registry PropertyId),
    filed.Filed g.propertyName → (∀ p ∈ filed.elements, g.Has p) → (ps.map g.propertyName).Nodup →
    (∀ p ∈ ps, filed.get? (g.propertyName p) = some p) →
    RequireAll g required filed ps (g.requireAll required filed ps).1 (g.requireAll required filed ps).2 := by
  induction ps with
  | nil =>
    intro g filed hfiled _ _ _
    exact ⟨.refl g, hfiled, by simp, fun _ _ => rfl⟩
  | cons p ps ih =>
    intro g filed hfiled hhas hnodup hget
    have hp : g.Has p := hhas p (Registry.mem_elements_of_get? (hget p (by simp)))
    have hps : ∀ r ∈ ps, g.Has r := fun r hr => hhas r (Registry.mem_elements_of_get? (hget r (by simp [hr])))
    rw [List.map_cons, List.nodup_cons] at hnodup
    have hother : ∀ r ∈ ps, g.propertyName r ≠ g.propertyName p :=
      fun r hr heq => hnodup.1 (heq ▸ List.mem_map_of_mem hr)
    by_cases hcopied : g.propertyName p ∈ required ∧ (g.held p).isNull = true
    · obtain ⟨h, q, heq, hgrown, hcopy⟩ := exists_requiredCopy?_eq_some hp hcopied.2
      have hnames : ∀ r ∈ ps, h.propertyName r = g.propertyName r :=
        fun r hr => (hps r hr).propertyName_eq hgrown.kept
      have hname : h.propertyName q = g.propertyName p :=
        hcopy.propertyName_eq.trans (hp.propertyName_eq hgrown.kept)
      rw [requireAll, if_pos (List.contains_iff_mem.mpr hcopied.1), heq]
      refine .cons_of_copy hp hother hps hcopied hgrown hcopy (ih h (filed.insert h.propertyName q) ?_ ?_ ?_ ?_)
      · exact (hfiled.congr fun r hr => (hhas r hr).propertyName_eq hgrown.kept).put rfl
      · intro r hr
        rcases Registry.mem_elements_put hr with rfl | hr
        · exact hcopy.has
        · exact (hhas r hr).kept hgrown.kept
      · rw [List.map_congr_left hnames]
        exact hnodup.2
      · intro r hr
        rw [hnames r hr, Registry.insert, Registry.get?_put, hname, if_neg (hother r hr)]
        exact hget r (by simp [hr])
    · have hstep : g.requireAll required filed (p :: ps) = g.requireAll required filed ps := by
        rw [requireAll]
        split_ifs with hcontains
        · have hnull : (g.held p).isNull = false := by
            rw [List.contains_iff_mem] at hcontains
            simpa [hcontains] using hcopied
          rw [requiredCopy?_eq_none hnull]
        · rfl
      rw [hstep]
      exact .cons_of_not hp hother hcopied (hget p (by simp))
        (ih g filed hfiled hhas hnodup.2 fun r hr => hget r (by simp [hr]))

/-! ### Adding properties -/

/-- A property that cannot be null is added as it is, unless a different property has its name. -/
theorem addProperties_singleton_eq_ok_iff (ho : g.object? i = some o) (hp : (g.held p).isNull = false) :
    g.addProperties i (Registry.ofList g.propertyName [p]) true = .ok h ↔
      (∀ q, o.properties.get? (g.propertyName p) = some q → q = p) ∧
        h = g.setItem i (.object { o with properties := o.properties.insert g.propertyName p }) := by
  have hempty : (Registry.ofList g.propertyName [p]).isEmpty = false := rfl
  have helements : (Registry.ofList g.propertyName [p]).elements = [p] := rfl
  have hrequire : ∀ filed, g.requireAll o.required filed [p] = (g, filed) := by
    intro filed
    rw [requireAll, requiredCopy?_eq_none hp]
    split_ifs <;> rfl
  have hregister : ∀ merged, (o.properties.registerAll g.propertyName (Registry.ofList g.propertyName [p])).mapError
        (ItemError.ofDuplicateProperty o.typeName) = .ok merged ↔
      (∀ q, o.properties.get? (g.propertyName p) = some q → q = p) ∧ merged = o.properties.insert g.propertyName p := by
    intro merged
    rw [mapError_eq_ok_iff, Registry.registerAll_eq_ok_iff, helements, List.forall_mem_singleton]
    rfl
  rw [addProperties, object?_eq_some_iff.mp ho]
  simp only [hempty, helements, Bool.false_eq_true, if_false, if_true, bind_eq_ok_iff, hregister]
  constructor
  · rintro ⟨merged, ⟨hfree, rfl⟩, both, hpure, hset⟩
    obtain rfl := Except.ok.inj hpure
    rw [hrequire] at hset
    exact ⟨hfree, (Except.ok.inj hset).symm⟩
  · rintro ⟨hfree, rfl⟩
    refine ⟨_, ⟨hfree, rfl⟩, _, rfl, ?_⟩
    rw [hrequire]
    rfl

/-- What an object holds under a name after properties have been added to it: its own property or the added one, or a
required copy of it. -/
structure Merged (g : Graph) (i : ItemId) (o : ObjectNode) (added : Registry PropertyId) (h : Graph) : Prop where
  kept : Kept g h
  item_eq : ∀ j : ItemId, j.index < g.items.size → j ≠ i → h.item j = g.item j
  object : ∃ properties : Registry PropertyId, h.object? i = some { o with properties } ∧
    properties.Filed h.propertyName ∧ (∀ q ∈ properties.elements, h.Has q) ∧
    ∀ name, Option.Rel (Replaces g h (name ∈ o.required ∧ added.isEmpty = false))
      ((o.properties.get? name).or (added.get? name)) (properties.get? name)

/-- After the walk, each candidate is replaced under its name. -/
theorem RequireAll.rel {filed after : Registry PropertyId} {ps : List PropertyId}
    (hall : RequireAll g required filed ps h after) (hget : ∀ p ∈ ps, filed.get? (g.propertyName p) = some p)
    (name : String) :
    Option.Rel (Replaces g h (name ∈ required ∧ name ∈ ps.map g.propertyName)) (filed.get? name) (after.get? name) := by
  by_cases hname : name ∈ ps.map g.propertyName
  · obtain ⟨p, hp, rfl⟩ := List.mem_map.mp hname
    obtain ⟨q, hq, hreplaces⟩ := hall.get?_mem p hp
    rw [hget p hp, hq]
    exact .some (hreplaces.congr (and_iff_left hname).symm)
  · rw [hall.get?_notMem name fun p hp heq => hname (heq ▸ List.mem_map_of_mem hp)]
    cases filed.get? name with
    | none => exact .none
    | some p => exact .some ⟨fun hmust => absurd hmust.2 hname, fun _ => rfl⟩

/-- A set of properties of a graph: each of them is a node, and stands under its own name. -/
structure PropertySet (g : Graph) (r : Registry PropertyId) : Prop where
  filed : r.Filed g.propertyName
  has : ∀ p ∈ r.elements, g.Has p

theorem PropertySet.nodup_names {r : Registry PropertyId} (hr : g.PropertySet r) :
    (r.elements.map g.propertyName).Nodup :=
  hr.filed.names_ascending.imp fun hlt => ne_of_lt hlt

/-- What is filed later wins, and everything is a property of the graph. -/
theorem PropertySet.insertAll {r other : Registry PropertyId} (hr : g.PropertySet r) (hother : g.PropertySet other) :
    g.PropertySet (r.insertAll g.propertyName other) := by
  refine ⟨hr.filed.insertAll other, fun p hp => ?_⟩
  rcases (Registry.mem_elements_insertAll hr.filed hother.filed).mp hp with hp | ⟨hp, -⟩
  · exact hother.has p hp
  · exact hr.has p hp

/-- An object has been given properties, with a required copy for each that must be required and can be null. -/
structure Updated (g : Graph) (i : ItemId) (o : ObjectNode) (given : Registry PropertyId) (must : String → Prop)
    (h : Graph) : Prop where
  kept : Kept g h
  item_eq : ∀ j : ItemId, j.index < g.items.size → j ≠ i → h.item j = g.item j
  object : ∃ properties : Registry PropertyId, h.object? i = some { o with properties } ∧ h.PropertySet properties ∧
    ∀ name, Option.Rel (Replaces g h (must name)) (given.get? name) (properties.get? name)

/-- The object gets what the walk over the candidates comes to. -/
theorem updated_requireAll {given : Registry PropertyId} {ps : List PropertyId} (ho : g.object? i = some o)
    (hgiven : g.PropertySet given) (hnodup : (ps.map g.propertyName).Nodup)
    (hget : ∀ p ∈ ps, given.get? (g.propertyName p) = some p) :
    Updated g i o given (fun name => name ∈ o.required ∧ name ∈ ps.map g.propertyName)
      ((g.requireAll o.required given ps).1.setItem i
        (.object { o with properties := (g.requireAll o.required given ps).2 })) := by
  have hall : RequireAll g o.required given ps _ _ := requireAll_spec ps g given hgiven.filed hgiven.has hnodup hget
  set result := g.requireAll o.required given ps
  have ho' : result.1.object? i = some o := by
    rw [object?_congr (hall.grown.item_eq i (lt_of_object? ho)), ho]
  have hkept : Kept result.1 (result.1.setItem i (.object { o with properties := result.2 })) := kept_setItem ho'
  have hhas : ∀ {name : String} {p : PropertyId}, given.get? name = some p → result.1.Has p := fun hp =>
    (hgiven.has _ (Registry.mem_elements_of_get? hp)).kept hall.grown.kept
  refine ⟨hall.grown.kept.trans hkept, fun j hj hji => ?_, result.2, ?_, ⟨hall.filed, fun q hq => ?_⟩, fun name => ?_⟩
  · rw [item_setItem_of_ne _ hji, hall.grown.item_eq j hj]
  · rw [object?_eq_some_iff]
    exact item_setItem_self _ (lt_of_object? ho')
  · have hrel := hall.rel hget (result.1.propertyName q)
    rw [hall.filed.get?_of_mem hq] at hrel
    obtain ⟨p, hp, hreplaces⟩ := exists_of_rel_some hrel
    exact (hreplaces.has (hhas hp)).kept hkept
  · exact rel_imp (hall.rel hget name) fun p q hp hreplaces => hreplaces.kept (hhas hp) hkept

/-- Leniently, properties can always be added to an object. -/
theorem exists_addProperties_eq_ok {added : Registry PropertyId} (ho : g.object? i = some o)
    (hown : o.properties.Filed g.propertyName) (hownHas : ∀ p ∈ o.properties.elements, g.Has p)
    (hadded : added.Filed g.propertyName) (haddedHas : ∀ p ∈ added.elements, g.Has p) :
    ∃ h, g.addProperties i added false = .ok h ∧ Merged g i o added h := by
  rw [addProperties, object?_eq_some_iff.mp ho]
  by_cases hempty : added.isEmpty = true
  · -- Without anything to add nothing is required either.
    refine ⟨g, by simp only [hempty, if_true], Grown.kept (.refl g), fun _ _ _ => rfl, o.properties, ho, hown, hownHas,
      fun name => ?_⟩
    rw [Registry.get?_of_isEmpty hempty, Option.or_none]
    cases o.properties.get? name with
    | none => exact .none
    | some p =>
      refine .some ⟨fun hmust => ?_, fun _ => rfl⟩
      exact absurd (hmust.2.symm.trans hempty) (by decide)
  · have hempty : added.isEmpty = false := by simpa using hempty
    have hmerged : g.PropertySet (added.insertAll g.propertyName o.properties) :=
      .insertAll ⟨hadded, haddedHas⟩ ⟨hown, hownHas⟩
    have hupdated := updated_requireAll ho hmerged hmerged.nodup_names fun p hp => hmerged.filed.get?_of_mem hp
    obtain ⟨properties, hobject, hproperties, hrel⟩ := hupdated.object
    refine ⟨_, ?_, hupdated.kept, hupdated.item_eq, properties, hobject, hproperties.filed, hproperties.has,
      fun name => ?_⟩
    · simp only [hempty, Bool.false_eq_true, if_false, bind, Except.bind, pure, Except.pure]
    · rw [← Registry.get?_insertAll added hown name]
      refine rel_imp (hrel name) fun p q hp hreplaces => hreplaces.congr (and_congr_right fun _ => ?_)
      -- Every element is a candidate.
      obtain ⟨hmem, rfl⟩ := hmerged.filed.get?_eq_some_iff.mp hp
      exact iff_of_true (List.mem_map_of_mem hmem) hempty

end Schemata.Graph
