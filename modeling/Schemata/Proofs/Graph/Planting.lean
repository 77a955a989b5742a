import Schemata.Proofs.Graph.Basic
import Schemata.Proofs.Shape

/-!
# Planted trees

A definition tree is planted as new nodes, children first. The nodes that have been planted since a graph `b` are
*new* (`Graph.New`), and they form a forest (`Graph.Planted`):

* old nodes are as they were, and new nodes are linked to new nodes only;
* a node is linked to from one new node at most; one that is not linked to at all is *loose*;
* links lead to items that were planted earlier, except for scalars;
* objects file their properties by name, and the objects below a property are named by the object that has it.

Each way of growing the forest keeps this up: adding an item or a property that links to loose nodes only
(`Planted.addItem`, `Planted.addProperty`), and giving an object a loose property (`Planted.setProperties`).
-/

namespace Schemata

/-- The children of an item. -/
def Item.children : Item → List Node
  | .scalar _ => []
  | .array e => [.item e]
  | .object o => o.properties.elements.map .property

namespace Graph

variable {b g h : Graph} {i j : ItemId} {p q : PropertyId} {x y z : Node}

theorem children_item (g : Graph) (i : ItemId) : g.children (.item i) = (g.item i).children := by
  rw [children]
  cases g.item i <;> rfl

/-! ### Old and new nodes -/

/-- A node was added to `b`, and is there in `g`. -/
def New (b g : Graph) : Node → Prop
  | .item i => b.items.size ≤ i.index ∧ i.index < g.items.size
  | .property p => b.properties.size ≤ p.index ∧ p.index < g.properties.size

/-- Nodes have been added to `b`, and nothing else has changed. -/
structure Grown (b g : Graph) : Prop where
  items_le : b.items.size ≤ g.items.size
  properties_le : b.properties.size ≤ g.properties.size
  item_eq : ∀ i : ItemId, i.index < b.items.size → g.item i = b.item i
  property_eq : ∀ p : PropertyId, p.index < b.properties.size → g.property p = b.property p

theorem Grown.refl (g : Graph) : Grown g g :=
  ⟨le_rfl, le_rfl, fun _ _ => rfl, fun _ _ => rfl⟩

theorem Grown.trans (hbg : Grown b g) (hgh : Grown g h) : Grown b h where
  items_le := hbg.items_le.trans hgh.items_le
  properties_le := hbg.properties_le.trans hgh.properties_le
  item_eq i hi := (hgh.item_eq i (hi.trans_le hbg.items_le)).trans (hbg.item_eq i hi)
  property_eq p hp := (hgh.property_eq p (hp.trans_le hbg.properties_le)).trans (hbg.property_eq p hp)

theorem grown_addItem (g : Graph) (x : Item) : Grown g (g.addItem x).1 where
  items_le := by simp
  properties_le := by simp
  item_eq _ hi := item_addItem_of_lt x hi
  property_eq _ _ := rfl

theorem grown_addProperty (g : Graph) (x : Property) : Grown g (g.addProperty x).1 where
  items_le := by simp
  properties_le := by simp
  item_eq _ _ := rfl
  property_eq _ hp := property_addProperty_of_lt x hp

theorem New.grown (hx : New b g x) (hgh : Grown g h) : New b h x := by
  cases x with
  | item i => exact ⟨hx.1, hx.2.trans_le hgh.items_le⟩
  | property p => exact ⟨hx.1, hx.2.trans_le hgh.properties_le⟩

/-- A node that is there has the links that it had. -/
theorem New.link_iff (hx : New b g x) (hgh : Grown g h) : h.Link x y ↔ g.Link x y := by
  cases x with
  | item i => rw [Link, Link, children_item, children_item, hgh.item_eq i hx.2]
  | property p => rw [link_property_iff, link_property_iff, hgh.property_eq p hx.2]

/-! ### Forests -/

/-- What holds of a property of an object that is named `path`: the objects that it holds, directly or in arrays, are
named by the path through it, and its mark stands behind the path unless it holds a scalar. -/
structure NamedBelow (g : Graph) (path : String) (p : PropertyId) : Prop where
  typeName_eq : ∀ k c, g.Encloses (g.property p).item k → g.object? k = some c →
    c.typeName = Naming.join path (g.propertyName p)
  mark_eq : (∀ s, g.held p ≠ .scalar s) →
    (g.property p).mark = .after (Text.byteLength (Naming.join path ""))

/-- The nodes that have been added to `b` form a forest. -/
structure Planted (b g : Graph) : Prop where
  /-- Old nodes are as they were. -/
  grown : Grown b g
  /-- New nodes are linked to new nodes. -/
  new_of_link : ∀ {x y : Node}, New b g x → g.Link x y → New b g y
  /-- At most one new node is linked to a node. -/
  holder_unique : ∀ {x y z : Node}, New b g x → New b g y → g.Link x z → g.Link y z → x = y
  /-- The element of an array was planted before it. -/
  element_lt : ∀ {i e : ItemId}, New b g (.item i) → g.item i = .array e → e.index < i.index
  /-- What a property of an object holds was planted before the object, or is a scalar. -/
  held_lt : ∀ {i : ItemId} {o : ObjectNode} {p : PropertyId}, New b g (.item i) → g.object? i = some o →
    p ∈ o.properties.elements → (∃ s, g.held p = .scalar s) ∨ (g.property p).item.index < i.index
  /-- Objects file their properties by name. -/
  filed : ∀ {i : ItemId} {o : ObjectNode}, New b g (.item i) → g.object? i = some o →
    o.properties.Filed g.propertyName
  /-- Objects are named by the objects above them. -/
  named : ∀ {i : ItemId} {o : ObjectNode} {p : PropertyId}, New b g (.item i) → g.object? i = some o →
    p ∈ o.properties.elements → g.NamedBelow o.typeName p

/-- A new node that no new node is linked to. -/
structure Loose (b g : Graph) (x : Node) : Prop where
  new : New b g x
  not_link : ∀ y, New b g y → ¬ g.Link y x

/-- Nothing has been planted yet. -/
theorem Planted.refl (g : Graph) : Planted g g := by
  have hnone : ∀ x, ¬ New g g x := by
    rintro (i | p) ⟨hge, hlt⟩
    · exact absurd hlt (Nat.not_lt.mpr hge)
    · exact absurd hlt (Nat.not_lt.mpr hge)
  exact ⟨.refl g, fun hx _ => absurd hx (hnone _), fun hx _ _ _ => absurd hx (hnone _),
    fun hi _ => absurd hi (hnone _), fun hi _ _ => absurd hi (hnone _), fun hi _ => absurd hi (hnone _),
    fun hi _ _ => absurd hi (hnone _)⟩

/-- What new nodes enclose stays the same while nodes are added. -/
theorem Planted.encloses (hg : Planted b g) (hgh : Grown g h) (hi : New b g (.item i)) (henc : h.Encloses i j) :
    g.Encloses i j ∧ New b g (.item j) := by
  induction henc with
  | refl i => exact ⟨.refl i, hi⟩
  | array hitem _ ih =>
    rw [hgh.item_eq _ hi.2] at hitem
    obtain ⟨henc, hnew⟩ := ih (hg.new_of_link hi (link_item_item_iff.mpr hitem))
    exact ⟨.array hitem henc, hnew⟩

theorem New.object?_eq (hi : New b g (.item i)) (hgh : Grown g h) : h.object? i = g.object? i :=
  object?_congr (hgh.item_eq i hi.2)

theorem New.propertyName_eq (hp : New b g (.property p)) (hgh : Grown g h) : h.propertyName p = g.propertyName p := by
  rw [propertyName, propertyName, hgh.property_eq p hp.2]

theorem NamedBelow.grown {path : String} (hp : g.NamedBelow path p) (hg : Planted b g) (hgh : Grown g h)
    (hnew : New b g (.property p)) : h.NamedBelow path p := by
  have hitem : New b g (.item (g.property p).item) := hg.new_of_link hnew (link_property_iff.mpr rfl)
  have hproperty : h.property p = g.property p := hgh.property_eq p hnew.2
  refine ⟨fun k c henc hc => ?_, fun hscalar => ?_⟩
  · rw [hproperty] at henc
    obtain ⟨henc, hk⟩ := hg.encloses hgh hitem henc
    rw [hnew.propertyName_eq hgh]
    exact hp.typeName_eq k c henc (hk.object?_eq hgh ▸ hc)
  · rw [hproperty]
    refine hp.mark_eq fun s hs => hscalar s ?_
    rw [held, hproperty, hgh.item_eq _ hitem.2]
    exact hs

/-! ### Growing a forest -/

theorem new_addItem_iff (hbg : Grown b g) (item : Item) :
    New b (g.addItem item).1 x ↔ New b g x ∨ x = .item (g.addItem item).2 := by
  have hle := hbg.items_le
  cases x with
  | item i =>
    rcases i with ⟨n⟩
    simp only [New, size_items_addItem, Node.item.injEq]
    rw [show (g.addItem item).2 = ⟨g.items.size⟩ from rfl, ItemId.mk.injEq]
    omega
  | property p => simp [New]

theorem new_addProperty_iff (hbg : Grown b g) (property : Property) :
    New b (g.addProperty property).1 x ↔ New b g x ∨ x = .property (g.addProperty property).2 := by
  have hle := hbg.properties_le
  cases x with
  | item i => simp [New]
  | property p =>
    rcases p with ⟨n⟩
    simp only [New, size_properties_addProperty, Node.property.injEq]
    rw [show (g.addProperty property).2 = ⟨g.properties.size⟩ from rfl, PropertyId.mk.injEq]
    omega

theorem link_addItem_self (g : Graph) (item : Item) :
    (g.addItem item).1.Link (.item (g.addItem item).2) y ↔ y ∈ item.children := by
  rw [Link, children_item, item_addItem_self]

theorem link_addProperty_self (g : Graph) (property : Property) :
    (g.addProperty property).1.Link (.property (g.addProperty property).2) y ↔ y = .item property.item := by
  rw [link_property_iff, property_addProperty_self]

/-- A loose node stays loose if the item that is added is not linked to it. -/
theorem Loose.addItem (hx : Loose b g x) (hbg : Grown b g) {item : Item} (hitem : x ∉ item.children) :
    Loose b (g.addItem item).1 x := by
  refine ⟨hx.new.grown (grown_addItem g item), fun y hy hlink => ?_⟩
  rcases (new_addItem_iff hbg item).mp hy with hy | rfl
  · exact hx.not_link y hy ((hy.link_iff (grown_addItem g item)).mp hlink)
  · exact hitem ((link_addItem_self g item).mp hlink)

theorem Loose.addProperty (hx : Loose b g x) (hbg : Grown b g) {property : Property}
    (hproperty : x ≠ .item property.item) : Loose b (g.addProperty property).1 x := by
  refine ⟨hx.new.grown (grown_addProperty g property), fun y hy hlink => ?_⟩
  rcases (new_addProperty_iff hbg property).mp hy with hy | rfl
  · exact hx.not_link y hy ((hy.link_iff (grown_addProperty g property)).mp hlink)
  · exact hproperty ((link_addProperty_self g property).mp hlink)

/-- An item that is linked to loose nodes can be added. -/
theorem Planted.addItem (hg : Planted b g) {item : Item} (hloose : ∀ y ∈ item.children, Loose b g y)
    (hfiled : ∀ o, item = .object o → o.properties.Filed g.propertyName)
    (hnamed : ∀ o, item = .object o → ∀ p ∈ o.properties.elements, g.NamedBelow o.typeName p) :
    Planted b (g.addItem item).1 ∧ Loose b (g.addItem item).1 (.item (g.addItem item).2) := by
  have hgh := grown_addItem g item
  have hnew : ∀ {x}, New b (g.addItem item).1 x → New b g x ∨ x = .item (g.addItem item).2 :=
    (new_addItem_iff hg.grown item).mp
  have hchild : ∀ {o p}, item = .object o → p ∈ o.properties.elements → New b g (.property p) := by
    rintro o p rfl hp
    exact (hloose _ (List.mem_map_of_mem hp)).new
  refine ⟨⟨hg.grown.trans hgh, ?_, ?_, ?_, ?_, ?_, ?_⟩, ⟨?_, ?_⟩⟩
  · intro x y hx hlink
    rcases hnew hx with hx | rfl
    · exact (hg.new_of_link hx ((hx.link_iff hgh).mp hlink)).grown hgh
    · exact (hloose y ((link_addItem_self g item).mp hlink)).new.grown hgh
  · -- Nothing was linked to the children of the new item.
    intro x y z hx hy hxz hyz
    rcases hnew hx with hx | rfl <;> rcases hnew hy with hy | rfl
    · exact hg.holder_unique hx hy ((hx.link_iff hgh).mp hxz) ((hy.link_iff hgh).mp hyz)
    · exact absurd ((hx.link_iff hgh).mp hxz) ((hloose z ((link_addItem_self g item).mp hyz)).not_link x hx)
    · exact absurd ((hy.link_iff hgh).mp hyz) ((hloose z ((link_addItem_self g item).mp hxz)).not_link y hy)
    · rfl
  · intro i e hi harray
    rcases hnew hi with hi | hi
    · exact hg.element_lt hi (hgh.item_eq i hi.2 ▸ harray)
    · obtain rfl := Node.item.inj hi
      rw [item_addItem_self] at harray
      subst harray
      exact (hloose (.item e) (List.mem_singleton.mpr rfl)).new.2
  · intro i o p hi ho hp
    rcases hnew hi with hi | hi
    · have ho := hi.object?_eq hgh ▸ ho
      have hpnew : New b g (.property p) := hg.new_of_link hi (link_item_property_iff.mpr ⟨o, ho, hp⟩)
      have hheld := (hg.new_of_link hpnew (link_property_iff.mpr rfl)).2
      rw [held, property_addItem, hgh.item_eq _ hheld]
      exact hg.held_lt hi ho hp
    · obtain rfl := Node.item.inj hi
      rw [object?_eq_some_iff, item_addItem_self] at ho
      exact .inr (hg.new_of_link (hchild ho hp) (link_property_iff.mpr rfl)).2
  · intro i o hi ho
    rcases hnew hi with hi | hi
    · exact hg.filed hi (hi.object?_eq hgh ▸ ho)
    · obtain rfl := Node.item.inj hi
      rw [object?_eq_some_iff, item_addItem_self] at ho
      exact hfiled o ho
  · intro i o p hi ho hp
    rcases hnew hi with hi | hi
    · have ho := hi.object?_eq hgh ▸ ho
      exact (hg.named hi ho hp).grown hg hgh (hg.new_of_link hi (link_item_property_iff.mpr ⟨o, ho, hp⟩))
    · obtain rfl := Node.item.inj hi
      rw [object?_eq_some_iff, item_addItem_self] at ho
      exact (hnamed o ho p hp).grown hg hgh (hchild ho hp)
  · exact (new_addItem_iff hg.grown item).mpr (.inr rfl)
  · intro y hy hlink
    rcases hnew hy with hy | rfl
    · exact absurd (hg.new_of_link hy ((hy.link_iff hgh).mp hlink)).2 (Nat.lt_irrefl _)
    · exact absurd (hloose _ ((link_addItem_self g item).mp hlink)).new.2 (Nat.lt_irrefl _)

/-- A property that holds a loose item can be added. -/
theorem Planted.addProperty (hg : Planted b g) {property : Property} (hloose : Loose b g (.item property.item)) :
    Planted b (g.addProperty property).1 ∧
      Loose b (g.addProperty property).1 (.property (g.addProperty property).2) := by
  have hgh := grown_addProperty g property
  have hnew : ∀ {x}, New b (g.addProperty property).1 x → New b g x ∨ x = .property (g.addProperty property).2 :=
    (new_addProperty_iff hg.grown property).mp
  have hitem : ∀ {i}, New b (g.addProperty property).1 (.item i) → New b g (.item i) := fun hi => hi
  refine ⟨⟨hg.grown.trans hgh, ?_, ?_, ?_, ?_, ?_, ?_⟩, ⟨?_, ?_⟩⟩
  · intro x y hx hlink
    rcases hnew hx with hx | rfl
    · exact (hg.new_of_link hx ((hx.link_iff hgh).mp hlink)).grown hgh
    · rw [(link_addProperty_self g property).mp hlink]
      exact hloose.new.grown hgh
  · intro x y z hx hy hxz hyz
    rcases hnew hx with hx | rfl <;> rcases hnew hy with hy | rfl
    · exact hg.holder_unique hx hy ((hx.link_iff hgh).mp hxz) ((hy.link_iff hgh).mp hyz)
    · obtain rfl := (link_addProperty_self g property).mp hyz
      exact absurd ((hx.link_iff hgh).mp hxz) (hloose.not_link x hx)
    · obtain rfl := (link_addProperty_self g property).mp hxz
      exact absurd ((hy.link_iff hgh).mp hyz) (hloose.not_link y hy)
    · rfl
  · exact fun hi harray => hg.element_lt (hitem hi) harray
  · intro i o p hi ho hp
    have hpnew : New b g (.property p) :=
      hg.new_of_link (hitem hi) (link_item_property_iff.mpr ⟨o, ho, hp⟩)
    rw [held, hgh.property_eq p hpnew.2]
    exact hg.held_lt (hitem hi) ho hp
  · intro i o hi ho
    refine (hg.filed (hitem hi) ho).congr fun p hp => ?_
    exact (hg.new_of_link (hitem hi) (link_item_property_iff.mpr ⟨o, ho, hp⟩)).propertyName_eq hgh
  · intro i o p hi ho hp
    exact (hg.named (hitem hi) ho hp).grown hg hgh
      (hg.new_of_link (hitem hi) (link_item_property_iff.mpr ⟨o, ho, hp⟩))
  · exact (new_addProperty_iff hg.grown property).mpr (.inr rfl)
  · intro y hy hlink
    rcases hnew hy with hy | rfl
    · exact absurd (hg.new_of_link hy ((hy.link_iff hgh).mp hlink)).2 (Nat.lt_irrefl _)
    · exact nomatch (link_addProperty_self g property).mp hlink

/-! ### Planting trees -/

/-- A tree that stands at a path has been planted below the loose item `i`. -/
structure Sown (b g h : Graph) (path : String) (i : ItemId) : Prop where
  planted : Planted b h
  grown : Grown g h
  loose : Loose b h (.item i)
  later : g.items.size ≤ i.index
  kept : ∀ x, Loose b g x → Loose b h x
  typeName_eq : ∀ k c, h.Encloses i k → h.object? k = some c → c.typeName = path

/-- The fields of an object that is named `path` have been planted, and filed beside what was filed `before`. -/
structure SownAll (b g h : Graph) (path : String) (before after : Registry PropertyId) : Prop where
  planted : Planted b h
  grown : Grown g h
  kept : ∀ x, Loose b g x → Loose b h x
  filed : after.Filed h.propertyName
  loose : ∀ p ∈ after.elements, Loose b h (.property p)
  named : ∀ p ∈ after.elements, h.NamedBelow path p
  later : ∀ p ∈ after.elements, p ∈ before.elements ∨ g.properties.size ≤ p.index

private theorem encloses_iff_of_not_array (hi : ∀ e, g.item i ≠ .array e) : g.Encloses i j ↔ i = j := by
  constructor
  · intro h
    cases h with
    | refl => rfl
    | array harray _ => exact absurd harray (hi _)
  · rintro rfl
    exact .refl i

theorem sown_addItem_scalar (hg : Planted b g) (s : Scalar) (path : String) :
    Sown b g (g.addItem (.scalar s)).1 path (g.addItem (.scalar s)).2 := by
  have hchildren : ∀ y ∈ (Item.scalar s).children, Loose b g y := by simp [Item.children]
  obtain ⟨hplanted, hloose⟩ := hg.addItem hchildren (by simp) (by simp)
  refine ⟨hplanted, grown_addItem g _, hloose, le_rfl, fun x hx => hx.addItem hg.grown (by simp [Item.children]), ?_⟩
  intro k c henc hc
  rw [encloses_iff_of_not_array (by simp)] at henc
  rw [← henc, object?_eq_some_iff, item_addItem_self] at hc
  exact nomatch hc

theorem Sown.addItem_array {path : String} (hs : Sown b g h path i) :
    Sown b g (h.addItem (.array i)).1 path (h.addItem (.array i)).2 := by
  have hloose : ∀ y ∈ (Item.array i).children, Loose b h y := by
    simpa [Item.children] using hs.loose
  obtain ⟨hplanted, htop⟩ := hs.planted.addItem hloose (by simp) (by simp)
  refine ⟨hplanted, hs.grown.trans (grown_addItem h _), htop, hs.grown.items_le, fun x hx => ?_, ?_⟩
  · refine (hs.kept x hx).addItem hs.planted.grown fun hmem => ?_
    obtain rfl : x = .item i := by simpa [Item.children] using hmem
    exact absurd hx.new.2 (Nat.not_lt.mpr hs.later)
  · intro k c henc hc
    cases henc with
    | refl =>
      rw [object?_eq_some_iff, item_addItem_self] at hc
      exact nomatch hc
    | array harray henc =>
      rw [item_addItem_self] at harray
      obtain rfl := Item.array.inj harray
      obtain ⟨henc, hk⟩ := hs.planted.encloses (grown_addItem h _) hs.loose.new henc
      exact hs.typeName_eq k c henc (hk.object?_eq (grown_addItem h _) ▸ hc)

theorem SownAll.addItem_object {path : String} {properties : Registry PropertyId}
    (hs : SownAll b g h path ∅ properties) (required : List String) :
    Sown b g (h.addItem (.object { typeName := path, properties, required })).1 path
      (h.addItem (.object { typeName := path, properties, required })).2 := by
  have hloose : ∀ y ∈ (Item.object { typeName := path, properties, required }).children, Loose b h y := by
    intro y hy
    obtain ⟨p, hp, rfl⟩ := List.mem_map.mp hy
    exact hs.loose p hp
  obtain ⟨hplanted, htop⟩ := hs.planted.addItem hloose
    (by rintro o ho; obtain rfl := Item.object.inj ho; exact hs.filed)
    (by rintro o ho; obtain rfl := Item.object.inj ho; exact hs.named)
  refine ⟨hplanted, hs.grown.trans (grown_addItem h _), htop, hs.grown.items_le, fun x hx => ?_, ?_⟩
  · refine (hs.kept x hx).addItem hs.planted.grown fun hmem => ?_
    obtain ⟨p, hp, rfl⟩ := List.mem_map.mp hmem
    rcases hs.later p hp with hp | hp
    · exact absurd hp List.not_mem_nil
    · exact absurd hx.new.2 (Nat.not_lt.mpr hp)
  · intro k c henc hc
    rw [encloses_iff_of_not_array (by simp)] at henc
    rw [← henc, object?_eq_some_iff, item_addItem_self] at hc
    rw [← Item.object.inj hc]

/-- A property with the tree that it holds has been planted. -/
theorem Sown.addProperty {path : String} {field : Field} (hs : Sown b g h (Naming.join path field.name) i)
    (hmark : field.mark = .after (Text.byteLength (Naming.join path ""))) :
    Planted b (h.addProperty { toField := field, item := i }).1 ∧
      Loose b (h.addProperty { toField := field, item := i }).1
        (.property (h.addProperty { toField := field, item := i }).2) ∧
      (h.addProperty { toField := field, item := i }).1.NamedBelow path
        (h.addProperty { toField := field, item := i }).2 ∧
      ∀ x, Loose b g x → Loose b (h.addProperty { toField := field, item := i }).1 x := by
  have hgh := grown_addProperty h { toField := field, item := i }
  have hitem : Loose b h (.item ({ toField := field, item := i } : Property).item) := hs.loose
  obtain ⟨hplanted, hloose⟩ := hs.planted.addProperty hitem
  refine ⟨hplanted, hloose, ⟨fun k c henc hc => ?_, fun _ => ?_⟩, fun x hx => ?_⟩
  · rw [property_addProperty_self] at henc
    obtain ⟨henc, hk⟩ := hs.planted.encloses hgh hs.loose.new henc
    rw [propertyName, property_addProperty_self]
    exact hs.typeName_eq k c henc (hk.object?_eq hgh ▸ hc)
  · rw [property_addProperty_self]
    exact hmark
  · refine (hs.kept x hx).addProperty hs.planted.grown ?_
    rintro rfl
    exact absurd hx.new.2 (Nat.not_lt.mpr hs.later)

mutual

theorem sown_plant {g : Graph} {path : String} (shape : Shape) (hg : Planted b g) (hs : shape.Named path) :
    Sown b g (g.plant shape).1 path (g.plant shape).2 := by
  cases shape with
  | scalar s => exact sown_addItem_scalar hg s path
  | array element =>
    rw [Shape.Named] at hs
    exact (sown_plant element hg hs).addItem_array
  | object typeName required fields =>
    obtain ⟨rfl, hfields⟩ := hs
    have hall := sown_plantFields fields hg hfields (Registry.filed_empty _) (by simp) (by simp)
    exact hall.addItem_object required

theorem sown_plantFields {g : Graph} {path : String} {filed : Registry PropertyId} (fields : List (Field × Shape))
    (hg : Planted b g) (hs : Shape.NamedAll path fields) (hfiled : filed.Filed g.propertyName)
    (hloose : ∀ p ∈ filed.elements, Loose b g (.property p)) (hnamed : ∀ p ∈ filed.elements, g.NamedBelow path p) :
    SownAll b g (g.plantFields filed fields).1 path filed (g.plantFields filed fields).2 := by
  match fields with
  | [] => exact ⟨hg, .refl g, fun _ hx => hx, hfiled, hloose, hnamed, fun _ hp => .inl hp⟩
  | (field, shape) :: rest =>
    obtain ⟨hmark, hshape, hrest⟩ := hs
    have hsown := sown_plant shape hg hshape
    obtain ⟨hplanted, htop, hbelow, hkept⟩ := hsown.addProperty hmark
    set x : Property := { toField := field, item := (g.plant shape).2 }
    set next := (g.plant shape).1.addProperty x
    have hgrown : Grown g next.1 := hsown.grown.trans (grown_addProperty _ x)
    have hmem : ∀ p ∈ (filed.put field.name next.2).elements, p = next.2 ∨ p ∈ filed.elements :=
      fun p hp => Registry.mem_elements_put hp
    have hput : (filed.put field.name next.2).Filed next.1.propertyName := by
      refine (hfiled.congr fun p hp => (hloose p hp).new.propertyName_eq hgrown).put ?_
      rw [propertyName, property_addProperty_self]
    have hall := sown_plantFields rest hplanted hrest hput
      (fun p hp => by
        rcases hmem p hp with rfl | hp
        · exact htop
        · exact hkept _ (hloose p hp))
      (fun p hp => by
        rcases hmem p hp with rfl | hp
        · exact hbelow
        · exact (hnamed p hp).grown hg hgrown (hloose p hp).new)
    refine ⟨hall.planted, hgrown.trans hall.grown, fun y hy => hall.kept y (hkept y hy), hall.filed, hall.loose,
      hall.named, fun p hp => ?_⟩
    rcases hall.later p hp with hp | hp
    · rcases hmem p hp with rfl | hp
      · exact .inr hsown.grown.properties_le
      · exact .inl hp
    · exact .inr (hgrown.properties_le.trans hp)

end

/-! ### Properties of an object that is there -/

theorem new_setItem_iff {item : Item} : New b (g.setItem i item) x ↔ New b g x := by
  cases x with
  | property p => rfl
  | item j => rw [New, New, size_items_setItem]

/-- A loose node stays loose if the updated item is not linked to it. -/
theorem Loose.setItem (hx : Loose b g x) {item : Item} (hitem : x ∉ item.children) :
    Loose b (g.setItem i item) x := by
  refine ⟨new_setItem_iff.mpr hx.new, fun y hy hlink => ?_⟩
  cases y with
  | property q => exact hx.not_link _ (new_setItem_iff.mp hy) hlink
  | item j =>
    rw [Link, children_item, item_setItem] at hlink
    split_ifs at hlink with hj
    · exact hitem hlink
    · rw [← children_item] at hlink
      exact hx.not_link _ (new_setItem_iff.mp hy) hlink

section SetProperties

variable {o : ObjectNode} {properties : Registry PropertyId} (ho : g.object? i = some o)

include ho

/-- If an object gets other properties, everything that is no object stays. -/
theorem item_setProperties_iff {k : ItemId} {item : Item} (hitem : ∀ c, item ≠ .object c) :
    (g.setItem i (.object { o with properties })).item k = item ↔ g.item k = item := by
  by_cases hki : k = i
  · subst hki
    rw [item_setItem_self _ (lt_of_object? ho), object?_eq_some_iff.mp ho]
    exact iff_of_false (hitem _).symm (hitem _).symm
  · rw [item_setItem_of_ne _ hki]

variable (hmem : ∀ q ∈ properties.elements, q = p ∨ q ∈ o.properties.elements)

include hmem

/-- If an object gets one more property, there is one more link. -/
theorem link_of_link_setProperties (hlink : (g.setItem i (.object { o with properties })).Link x y) :
    g.Link x y ∨ (x = .item i ∧ y = .property p) := by
  cases x with
  | property q => exact .inl hlink
  | item j =>
    by_cases hji : j = i
    · subst hji
      rw [Link, children_item, item_setItem_self _ (lt_of_object? ho)] at hlink
      obtain ⟨q, hq, rfl⟩ := List.mem_map.mp hlink
      rcases hmem q hq with rfl | hq
      · exact .inr ⟨rfl, rfl⟩
      · exact .inl (link_item_property_iff.mpr ⟨o, ho, hq⟩)
    · rw [Link, children_item, item_setItem_of_ne _ hji, ← children_item] at hlink
      exact .inl hlink

/-- If an object gets one more property, it is the object that it was apart from that. -/
theorem exists_object?_of_setProperties {k : ItemId} {c : ObjectNode}
    (hc : (g.setItem i (.object { o with properties })).object? k = some c) :
    ∃ c', g.object? k = some c' ∧ c'.typeName = c.typeName ∧
      ∀ q ∈ c.properties.elements, q = p ∨ q ∈ c'.properties.elements := by
  by_cases hki : k = i
  · subst hki
    rw [object?_eq_some_iff, item_setItem_self _ (lt_of_object? ho)] at hc
    obtain rfl := Item.object.inj hc
    exact ⟨o, ho, rfl, hmem⟩
  · exact ⟨c, object?_congr (item_setItem_of_ne _ hki) ▸ hc, rfl, fun _ hq => .inr hq⟩

end SetProperties

/-- An object can be given a loose property that holds a scalar, in place of one of its own with that name. -/
theorem Planted.setProperties {o : ObjectNode} {s : Scalar} {properties : Registry PropertyId} (hg : Planted b g)
    (hi : New b g (.item i)) (ho : g.object? i = some o) (hp : Loose b g (.property p)) (hs : g.held p = .scalar s)
    (hfiled : properties.Filed g.propertyName)
    (hmem : ∀ q ∈ properties.elements, q = p ∨ q ∈ o.properties.elements) :
    Planted b (g.setItem i (.object { o with properties })) := by
  set h := g.setItem i (.object { o with properties }) with hh
  have hother : ∀ {j}, j ≠ i → h.item j = g.item j := item_setItem_of_ne _
  have hnew : ∀ {x}, New b h x ↔ New b g x := new_setItem_iff
  have harray : ∀ {k e}, h.item k = .array e ↔ g.item k = .array e :=
    item_setProperties_iff ho fun _ heq => nomatch heq
  have hscalar : ∀ {k t}, h.item k = .scalar t ↔ g.item k = .scalar t :=
    item_setProperties_iff ho fun _ heq => nomatch heq
  refine ⟨⟨?_, ?_, ?_, ?_⟩, ?_, ?_, ?_, ?_, ?_, ?_⟩
  · rw [hh, size_items_setItem]
    exact hg.grown.items_le
  · exact hg.grown.properties_le
  · intro j hj
    rw [hother (by rintro rfl; exact absurd hi.1 (Nat.not_le.mpr hj))]
    exact hg.grown.item_eq j hj
  · exact hg.grown.property_eq
  · intro x y hx hxy
    rcases link_of_link_setProperties ho hmem hxy with hxy | ⟨rfl, rfl⟩
    · exact hnew.mpr (hg.new_of_link (hnew.mp hx) hxy)
    · exact hp.new
  · -- The only new link leads to the property, which nothing was linked to.
    intro x y z hx hy hxz hyz
    rcases link_of_link_setProperties ho hmem hxz with hxz | ⟨rfl, rfl⟩ <;>
      rcases link_of_link_setProperties ho hmem hyz with hyz | ⟨rfl, hz⟩
    · exact hg.holder_unique (hnew.mp hx) (hnew.mp hy) hxz hyz
    · exact absurd (hz ▸ hxz) (hp.not_link x (hnew.mp hx))
    · exact absurd hyz (hp.not_link y (hnew.mp hy))
    · rfl
  · exact fun hj hje => hg.element_lt (hnew.mp hj) (harray.mp hje)
  · intro j c q hj hc hq
    obtain ⟨c', hc', -, hmem'⟩ := exists_object?_of_setProperties ho hmem hc
    have hheld : ∀ t, h.held q = .scalar t ↔ g.held q = .scalar t := fun t => hscalar
    simp only [hheld]
    rcases hmem' q hq with rfl | hq
    · exact .inl ⟨s, hs⟩
    · exact hg.held_lt (hnew.mp hj) hc' hq
  · intro j c hj hc
    by_cases hji : j = i
    · subst hji
      rw [object?_eq_some_iff, item_setItem_self _ hi.2] at hc
      obtain rfl := Item.object.inj hc
      exact hfiled
    · exact hg.filed (hnew.mp hj) (object?_congr (hother hji) ▸ hc)
  · intro j c q hj hc hq
    obtain ⟨c', hc', hname, hmem'⟩ := exists_object?_of_setProperties ho hmem hc
    rw [← hname]
    rcases hmem' q hq with rfl | hq
    · -- A scalar holds no object, so there is nothing to name below the property.
      refine ⟨fun k d henc hd => ?_, fun hno => absurd (hscalar.mpr hs) (hno s)⟩
      obtain rfl := (encloses_iff_of_not_array fun e he => nomatch hs.symm.trans (harray.mp he)).mp henc
      obtain ⟨d', hd', -⟩ := exists_object?_of_setProperties ho hmem hd
      exact nomatch hs.symm.trans (object?_eq_some_iff.mp hd')
    · have hbelow := hg.named (hnew.mp hj) hc' hq
      refine ⟨fun k d henc hd => ?_, fun hno => hbelow.mark_eq fun t ht => hno t (hscalar.mpr ht)⟩
      obtain ⟨d', hd', hdname, -⟩ := exists_object?_of_setProperties ho hmem hd
      rw [← hdname]
      exact hbelow.typeName_eq k d' (henc.congr fun _ _ => harray.mp) hd'

end Graph

end Schemata
