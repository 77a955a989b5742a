import Mathlib.Logic.Relation
import Schemata.Graph.Dedup
import Schemata.Proofs.Registry

/-!
# Reading a graph

What a graph reads after a node has been added or updated, and the links between its nodes.

A *link* leads from a property to its item, from an array to its element and from an object to its properties
(`Graph.Link`). A node *leads* to all nodes that links can be followed to (`Graph.Leads`). Arrays are looked through
by `Graph.Encloses`, from an item to the items inside the arrays around them.
-/

namespace Schemata.Graph

variable {g h : Graph} {i j : ItemId} {p q : PropertyId}

/-! ### Reading after an update -/

theorem item_addItem (g : Graph) (x : Item) (i : ItemId) :
    (g.addItem x).1.item i = if i = (g.addItem x).2 then x else g.item i := by
  rcases i with ⟨n⟩
  simp only [addItem, item, Array.getD_eq_getD_getElem?, Array.getElem?_push, ItemId.mk.injEq]
  split_ifs <;> rfl

@[simp]
theorem item_addItem_self (g : Graph) (x : Item) : (g.addItem x).1.item (g.addItem x).2 = x := by
  rw [item_addItem, if_pos rfl]

theorem item_addItem_of_lt (x : Item) (hi : i.index < g.items.size) : (g.addItem x).1.item i = g.item i := by
  rw [item_addItem, if_neg]
  rintro rfl
  exact Nat.lt_irrefl _ hi

@[simp]
theorem property_addItem (g : Graph) (x : Item) : (g.addItem x).1.property = g.property :=
  rfl

@[simp]
theorem size_items_addItem (g : Graph) (x : Item) : (g.addItem x).1.items.size = g.items.size + 1 :=
  Array.size_push x

@[simp]
theorem size_properties_addItem (g : Graph) (x : Item) :
    (g.addItem x).1.properties.size = g.properties.size :=
  rfl

@[simp]
theorem index_addItem (g : Graph) (x : Item) : (g.addItem x).2.index = g.items.size :=
  rfl

theorem property_addProperty (g : Graph) (x : Property) (p : PropertyId) :
    (g.addProperty x).1.property p = if p = (g.addProperty x).2 then x else g.property p := by
  rcases p with ⟨n⟩
  simp only [addProperty, property, Array.getD_eq_getD_getElem?, Array.getElem?_push, PropertyId.mk.injEq]
  split_ifs <;> rfl

@[simp]
theorem property_addProperty_self (g : Graph) (x : Property) :
    (g.addProperty x).1.property (g.addProperty x).2 = x := by
  rw [property_addProperty, if_pos rfl]

theorem property_addProperty_of_lt (x : Property) (hp : p.index < g.properties.size) :
    (g.addProperty x).1.property p = g.property p := by
  rw [property_addProperty, if_neg]
  rintro rfl
  exact Nat.lt_irrefl _ hp

@[simp]
theorem item_addProperty (g : Graph) (x : Property) : (g.addProperty x).1.item = g.item :=
  rfl

@[simp]
theorem size_properties_addProperty (g : Graph) (x : Property) :
    (g.addProperty x).1.properties.size = g.properties.size + 1 :=
  Array.size_push x

@[simp]
theorem size_items_addProperty (g : Graph) (x : Property) : (g.addProperty x).1.items.size = g.items.size :=
  rfl

@[simp]
theorem index_addProperty (g : Graph) (x : Property) : (g.addProperty x).2.index = g.properties.size :=
  rfl

theorem item_setItem (g : Graph) (i : ItemId) (x : Item) (j : ItemId) :
    (g.setItem i x).item j = if j = i ∧ i.index < g.items.size then x else g.item j := by
  rcases i with ⟨m⟩
  rcases j with ⟨n⟩
  simp only [setItem, item, Array.getD_eq_getD_getElem?, Array.getElem?_setIfInBounds, ItemId.mk.injEq]
  grind

theorem item_setItem_self (x : Item) (hi : i.index < g.items.size) : (g.setItem i x).item i = x := by
  rw [item_setItem, if_pos ⟨rfl, hi⟩]

theorem item_setItem_of_ne (x : Item) (hj : j ≠ i) : (g.setItem i x).item j = g.item j := by
  rw [item_setItem, if_neg fun h => hj h.1]

@[simp]
theorem property_setItem (g : Graph) (i : ItemId) (x : Item) : (g.setItem i x).property = g.property :=
  rfl

@[simp]
theorem size_items_setItem (g : Graph) (i : ItemId) (x : Item) : (g.setItem i x).items.size = g.items.size :=
  Array.size_setIfInBounds

@[simp]
theorem size_properties_setItem (g : Graph) (i : ItemId) (x : Item) :
    (g.setItem i x).properties.size = g.properties.size :=
  rfl

theorem property_setProperty (g : Graph) (p : PropertyId) (x : Property) (q : PropertyId) :
    (g.setProperty p x).property q = if q = p ∧ p.index < g.properties.size then x else g.property q := by
  rcases p with ⟨m⟩
  rcases q with ⟨n⟩
  simp only [setProperty, property, Array.getD_eq_getD_getElem?, Array.getElem?_setIfInBounds, PropertyId.mk.injEq]
  grind

/-- A property that is set to what it is stays as it is. -/
theorem setProperty_property (g : Graph) (p : PropertyId) : g.setProperty p (g.property p) = g := by
  obtain ⟨items, properties⟩ := g
  rw [setProperty, property, mk.injEq]
  refine ⟨rfl, Array.ext_getElem? fun n => ?_⟩
  rw [Array.getElem?_setIfInBounds, Array.getD_eq_getD_getElem?]
  grind

theorem property_setProperty_self (x : Property) (hp : p.index < g.properties.size) :
    (g.setProperty p x).property p = x := by
  rw [property_setProperty, if_pos ⟨rfl, hp⟩]

theorem property_setProperty_of_ne (x : Property) (hq : q ≠ p) : (g.setProperty p x).property q = g.property q := by
  rw [property_setProperty, if_neg fun h => hq h.1]

@[simp]
theorem item_setProperty (g : Graph) (p : PropertyId) (x : Property) : (g.setProperty p x).item = g.item :=
  rfl

@[simp]
theorem size_items_setProperty (g : Graph) (p : PropertyId) (x : Property) :
    (g.setProperty p x).items.size = g.items.size :=
  rfl

@[simp]
theorem size_properties_setProperty (g : Graph) (p : PropertyId) (x : Property) :
    (g.setProperty p x).properties.size = g.properties.size :=
  Array.size_setIfInBounds

/-- Outside of a graph there are only scalars. -/
theorem item_of_size_le (hi : g.items.size ≤ i.index) : g.item i = default := by
  rw [item, Array.getD_eq_getD_getElem?, Array.getElem?_eq_none hi, Option.getD_none]

theorem object?_eq_some_iff {o : ObjectNode} : g.object? i = some o ↔ g.item i = .object o := by
  rw [object?]
  split
  · rename_i hitem
    rw [hitem, Option.some.injEq, Item.object.injEq]
  · rename_i hitem
    exact ⟨fun h => (nomatch h), fun h => absurd h (hitem o)⟩

theorem exists_object?_of_isObject (hi : (g.item i).isObject = true) : ∃ o, g.object? i = some o := by
  cases hitem : g.item i with
  | object o => exact ⟨o, object?_eq_some_iff.mpr hitem⟩
  | scalar s => exact nomatch hitem ▸ hi
  | array e => exact nomatch hitem ▸ hi

theorem object?_congr (hi : h.item i = g.item i) : h.object? i = g.object? i := by
  rw [object?, object?, hi]

theorem lt_of_object? {o : ObjectNode} (ho : g.object? i = some o) : i.index < g.items.size := by
  by_contra hi
  rw [object?_eq_some_iff, item_of_size_le (Nat.le_of_not_lt hi)] at ho
  exact nomatch ho

theorem typeName_of_object? {o : ObjectNode} (ho : g.object? i = some o) : g.typeName i = o.typeName := by
  rw [typeName, ho, Option.map_some, Option.getD_some]

/-! ### Links -/

/-- A link leads from a node to one of its children. -/
def Link (g : Graph) (x y : Node) : Prop :=
  y ∈ g.children x

/-- A node leads to another if links can be followed from it to the other. -/
abbrev Leads (g : Graph) : Node → Node → Prop :=
  Relation.ReflTransGen g.Link

/-- An item is another item, or arrays around it. -/
inductive Encloses (g : Graph) : ItemId → ItemId → Prop where
  /-- There is no array in between. -/
  | refl (i : ItemId) : Encloses g i i
  /-- There is one more array around. -/
  | array {i e j : ItemId} (hi : g.item i = .array e) (he : Encloses g e j) : Encloses g i j

theorem link_property_iff {x : Node} : g.Link (.property p) x ↔ x = .item (g.property p).item := by
  rw [Link, children, List.mem_singleton]

theorem link_item_iff {x : Node} :
    g.Link (.item i) x ↔ (∃ e, g.item i = .array e ∧ x = .item e) ∨
      ∃ o, g.item i = .object o ∧ ∃ p ∈ o.properties.elements, x = .property p := by
  rw [Link, children]
  cases hitem : g.item i with
  | scalar s => simp
  | array e => simp
  | object o => simp [eq_comm]

theorem link_item_item_iff : g.Link (.item i) (.item j) ↔ g.item i = .array j := by
  rw [link_item_iff]
  constructor
  · rintro (⟨e, he, hje⟩ | ⟨o, -, p, -, hp⟩)
    · rw [he, Node.item.inj hje]
    · exact nomatch hp
  · exact fun h => .inl ⟨j, h, rfl⟩

theorem link_item_property_iff :
    g.Link (.item i) (.property p) ↔ ∃ o, g.object? i = some o ∧ p ∈ o.properties.elements := by
  rw [link_item_iff]
  constructor
  · rintro (⟨e, -, he⟩ | ⟨o, ho, q, hq, hpq⟩)
    · exact nomatch he
    · exact ⟨o, object?_eq_some_iff.mpr ho, Node.property.inj hpq ▸ hq⟩
  · rintro ⟨o, ho, hp⟩
    exact .inr ⟨o, object?_eq_some_iff.mp ho, p, hp, rfl⟩

theorem Encloses.leads (h : g.Encloses i j) : g.Leads (.item i) (.item j) := by
  induction h with
  | refl i => exact .refl
  | array hi _ ih => exact .head (link_item_item_iff.mpr hi) ih

/-- Links and enclosed items are the same in graphs that read the same where they are followed. -/
theorem Encloses.congr (henc : g.Encloses i j)
    (hitems : ∀ k e, g.item k = .array e → h.item k = .array e) : h.Encloses i j := by
  induction henc with
  | refl i => exact .refl i
  | array hi _ ih => exact .array (hitems _ _ hi) ih

/-! ### From objects to what is inside their properties -/

/-- The item at a node: the item itself, or the one that a property holds. -/
def entry (g : Graph) : Node → ItemId
  | .item i => i
  | .property p => (g.property p).item

/-- What holds of the items inside a node, and passes from an object to the items inside its properties, holds of all
items below the node. -/
@[elab_as_elim]
theorem item_induction {P : ItemId → Prop} {x : Node} (hinside : ∀ k, g.Encloses (g.entry x) k → P k)
    (hnext : ∀ i o p k, g.Leads x (.item i) → g.object? i = some o → P i → p ∈ o.properties.elements →
      g.Encloses (g.property p).item k → P k) {k : ItemId} (hk : g.Leads x (.item k)) : P k := by
  suffices h : ∀ y, g.Leads x y → ∀ k, g.Encloses (g.entry y) k → P k from h _ hk k (.refl k)
  intro y hy
  induction hy with
  | refl => exact hinside
  | @tail y z hy hyz ih =>
    intro k henc
    cases y with
    | property p =>
      rw [link_property_iff.mp hyz] at henc
      exact ih k henc
    | item i =>
      rcases link_item_iff.mp hyz with ⟨e, he, rfl⟩ | ⟨o, ho, p, hp, rfl⟩
      · exact ih k (.array he henc)
      · exact hnext i o p k hy (object?_eq_some_iff.mpr ho) (ih i (.refl i)) hp henc

/-- What leads down to an item either is arrays around it, or passes a property of an object that has the item inside. -/
theorem encloses_or_exists_of_leads {x : Node} {k : ItemId} (hk : g.Leads x (.item k)) :
    g.Encloses (g.entry x) k ∨ ∃ i p, g.Leads x (.item i) ∧ g.Link (.item i) (.property p) ∧
      g.Encloses (g.property p).item k := by
  refine item_induction (fun k henc => ?_) (fun i o p k hi ho _ hp henc => ?_) hk
  · exact .inl henc
  · exact .inr ⟨i, p, hi, link_item_property_iff.mpr ⟨o, ho, hp⟩, henc⟩

end Schemata.Graph
