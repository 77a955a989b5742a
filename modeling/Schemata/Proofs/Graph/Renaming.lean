import Mathlib.Data.Set.Insert
import Schemata.Proofs.Graph.Basic
import Schemata.Proofs.Mark

/-!
# What a rename comes to

A rename walks down from an item, through arrays and from objects through their properties, and changes a graph while
it walks. Nodes can be shared, so it can come to a node several times. But once an object is renamed, the mark leaves
it alone, and the walk ends there. So a rename comes to the same as *painting* every node below the item once
(`Graph.Painted`): the objects get their new names, and the marks of the properties follow the rename.

* `Graph.rank` bounds the depth of the walk in a graph whose links lead to lower ranks;
* `painted_renameWithin`: the walk paints what is below an item, in addition to what is painted already;
* `painted_rename`: a rename through an unused mark paints everything below the item if the name does not read
  `common`, and `rename_eq_self` that it changes nothing otherwise.
-/

namespace Schemata

/-- An item with its type name replaced, if it is an object. -/
def Item.renamed (ρ : String → String) : Item → Item
  | .object o => .object { o with typeName := ρ o.typeName }
  | item => item

namespace Graph

variable {g h : Graph} {i j : ItemId} {p q : PropertyId} {x y z : Node}

/-! ### Ranks -/

/-- The number of items that a walk down from an item can pass. -/
def rank (g : Graph) (i : ItemId) : Nat :=
  match g.item i with
  | .scalar _ => 0
  | _ => i.index + 1

theorem rank_le_depth (g : Graph) (i : ItemId) : g.rank i ≤ g.depth := by
  rw [rank, depth]
  split
  · exact Nat.zero_le _
  · rename_i hscalar
    by_contra hlt
    exact hscalar default (item_of_size_le (by omega))

theorem rank_pos_of_object? {o : ObjectNode} (ho : g.object? i = some o) : 0 < g.rank i := by
  rw [rank, object?_eq_some_iff.mp ho]
  exact Nat.succ_pos _

/-- Below a node, links lead to items of lower rank. -/
structure Ranked (g : Graph) (x : Node) : Prop where
  element : ∀ {i e : ItemId}, g.Leads x (.item i) → g.item i = .array e → g.rank e < g.rank i
  held : ∀ {i : ItemId} {p : PropertyId}, g.Leads x (.item i) → g.Link (.item i) (.property p) →
    g.rank (g.property p).item < g.rank i

theorem Ranked.of_leads (hx : g.Ranked x) (hxy : g.Leads x y) : g.Ranked y :=
  ⟨fun hi => hx.element (hxy.trans hi), fun hi => hx.held (hxy.trans hi)⟩

/-- The height of a node above the scalars. -/
def height (g : Graph) : Node → Nat
  | .item i => 2 * g.rank i
  | .property p => 2 * g.rank (g.property p).item + 1

theorem Ranked.height_lt (hx : g.Ranked x) (hxy : g.Leads x y) (hyz : g.Link y z) : g.height z < g.height y := by
  cases y with
  | property p =>
    rw [link_property_iff.mp hyz, height, height]
    omega
  | item i =>
    rcases link_item_iff.mp hyz with ⟨e, he, rfl⟩ | ⟨o, ho, p, hp, rfl⟩
    · have := hx.element hxy he
      rw [height, height]
      omega
    · have := hx.held hxy (link_item_property_iff.mpr ⟨o, object?_eq_some_iff.mpr ho, hp⟩)
      rw [height, height]
      omega

theorem Ranked.height_le (hx : g.Ranked x) (hxy : g.Leads x y) : g.height y ≤ g.height x := by
  induction hxy with
  | refl => exact le_rfl
  | tail hxy hyz ih => exact (hx.height_lt hxy hyz).le.trans ih

/-- Links do not lead back. -/
theorem Ranked.not_leads (hx : g.Ranked x) (hxy : g.Link x y) : ¬ g.Leads y x := by
  intro hyx
  have hlt := hx.height_lt .refl hxy
  have hle := (hx.of_leads (.single hxy)).height_le hyx
  omega

/-! ### Painting -/

/-- The nodes of `S` are painted: objects are renamed by `ρ`, and marks of properties are moved by `φ`. All other
nodes are as they were. -/
structure Painted (ρ : String → String) (φ : Mark → Mark) (S : Set Node) (g h : Graph) : Prop where
  items_size : h.items.size = g.items.size
  properties_size : h.properties.size = g.properties.size
  item_of_mem : ∀ {i : ItemId}, .item i ∈ S → h.item i = (g.item i).renamed ρ
  item_of_notMem : ∀ {i : ItemId}, .item i ∉ S → h.item i = g.item i
  property_of_mem : ∀ {p : PropertyId}, .property p ∈ S →
    h.property p = { g.property p with mark := φ (g.property p).mark }
  property_of_notMem : ∀ {p : PropertyId}, .property p ∉ S → h.property p = g.property p

variable {ρ : String → String} {φ : Mark → Mark} {S : Set Node}

theorem Painted.refl (ρ : String → String) (φ : Mark → Mark) (g : Graph) : Painted ρ φ ∅ g g :=
  ⟨rfl, rfl, fun hi => absurd hi (Set.notMem_empty _), fun _ => rfl, fun hp => absurd hp (Set.notMem_empty _),
    fun _ => rfl⟩

/-- Painting leaves what a property holds. -/
theorem Painted.property_item (hpaint : Painted ρ φ S g h) (p : PropertyId) :
    (h.property p).item = (g.property p).item := by
  by_cases hp : .property p ∈ S
  · rw [hpaint.property_of_mem hp]
  · rw [hpaint.property_of_notMem hp]

theorem Painted.scalar_iff (hpaint : Painted ρ φ S g h) {s : Scalar} :
    h.item i = .scalar s ↔ g.item i = .scalar s := by
  by_cases hi : .item i ∈ S
  · rw [hpaint.item_of_mem hi]
    cases g.item i <;> simp [Item.renamed]
  · rw [hpaint.item_of_notMem hi]

theorem Painted.array_iff (hpaint : Painted ρ φ S g h) {e : ItemId} :
    h.item i = .array e ↔ g.item i = .array e := by
  by_cases hi : .item i ∈ S
  · rw [hpaint.item_of_mem hi]
    cases g.item i <;> simp [Item.renamed]
  · rw [hpaint.item_of_notMem hi]

/-- Paint an object in addition. -/
theorem Painted.setItem {o : ObjectNode} (hpaint : Painted ρ φ S g h) (ho : g.object? i = some o) :
    Painted ρ φ (insert (.item i) S) g (h.setItem i (.object { o with typeName := ρ o.typeName })) := by
  have hlt : i.index < h.items.size := hpaint.items_size ▸ lt_of_object? ho
  refine ⟨by rw [size_items_setItem, hpaint.items_size], hpaint.properties_size, ?_, ?_, ?_, ?_⟩
  · intro j hj
    by_cases hji : j = i
    · rw [hji, item_setItem_self _ hlt, object?_eq_some_iff.mp ho, Item.renamed]
    · rw [item_setItem_of_ne _ hji]
      exact hpaint.item_of_mem (hj.resolve_left (by simpa using hji))
  · intro j hj
    have hji : j ≠ i := fun h => hj (.inl (by rw [h]))
    rw [item_setItem_of_ne _ hji]
    exact hpaint.item_of_notMem fun h => hj (.inr h)
  · intro p hp
    exact hpaint.property_of_mem (hp.resolve_left (by simp))
  · intro p hp
    exact hpaint.property_of_notMem fun h => hp (.inr h)

/-- Paint a property in addition. -/
theorem Painted.followMark {m : Mark} (hpaint : Painted ρ (·.follow m) S g h) (hp : .property p ∉ S)
    (hlt : p.index < g.properties.size) :
    Painted ρ (·.follow m) (insert (.property p) S) g (h.followMark p m) := by
  have hlt' : p.index < h.properties.size := hpaint.properties_size ▸ hlt
  have hself : h.property p = g.property p := hpaint.property_of_notMem hp
  refine ⟨hpaint.items_size, ?_, ?_, ?_, ?_, ?_⟩
  · rw [Graph.followMark, size_properties_setProperty, hpaint.properties_size]
  · intro i hi
    exact hpaint.item_of_mem (hi.resolve_left (by simp))
  · intro i hi
    exact hpaint.item_of_notMem fun h => hi (.inr h)
  · intro q hq
    by_cases hqp : q = p
    · rw [hqp, Graph.followMark, property_setProperty_self _ hlt', hself]
    · rw [Graph.followMark, property_setProperty_of_ne _ hqp]
      exact hpaint.property_of_mem (hq.resolve_left (by simpa using hqp))
  · intro q hq
    have hqp : q ≠ p := fun h => hq (.inl (by rw [h]))
    rw [Graph.followMark, property_setProperty_of_ne _ hqp]
    exact hpaint.property_of_notMem fun h => hq (.inr h)

/-- Paint an item that is no object in addition: nothing is to be done. -/
theorem Painted.insert_item (hpaint : Painted ρ φ S g h) (hi : ∀ o, g.item i ≠ .object o) :
    Painted ρ φ (insert (.item i) S) g h := by
  refine ⟨hpaint.items_size, hpaint.properties_size, ?_, ?_, ?_, ?_⟩
  · rintro j (hj | hj)
    · obtain rfl := Node.item.inj hj
      have hself : (g.item j).renamed ρ = g.item j := by
        cases hitem : g.item j with
        | object o => exact absurd hitem (hi o)
        | scalar s => rfl
        | array e => rfl
      rw [hself]
      by_cases hj : .item j ∈ S
      · rw [hpaint.item_of_mem hj, hself]
      · exact hpaint.item_of_notMem hj
    · exact hpaint.item_of_mem hj
  · exact fun hj => hpaint.item_of_notMem fun h => hj (.inr h)
  · exact fun hp => hpaint.property_of_mem (hp.resolve_left (by simp))
  · exact fun hp => hpaint.property_of_notMem fun h => hp (.inr h)

/-! ### What is below a node -/

/-- The nodes that a node leads to. -/
def below (g : Graph) (x : Node) : Set Node :=
  { y | g.Leads x y }

theorem below_eq_insert (g : Graph) (x : Node) : g.below x = insert x { z | ∃ y, g.Link x y ∧ g.Leads y z } := by
  ext z
  constructor
  · intro hz
    rcases Relation.ReflTransGen.cases_head hz with rfl | hz
    · exact .inl rfl
    · exact .inr hz
  · rintro (rfl | ⟨y, hxy, hyz⟩)
    · exact .refl
    · exact .head hxy hyz

theorem below_property (g : Graph) (p : PropertyId) :
    g.below (.property p) = insert (.property p) (g.below (.item (g.property p).item)) := by
  rw [below_eq_insert]
  congr 1
  ext z
  constructor
  · rintro ⟨y, hy, hyz⟩
    rwa [link_property_iff.mp hy] at hyz
  · exact fun hz => ⟨_, link_property_iff.mpr rfl, hz⟩

theorem below_array {e : ItemId} (hi : g.item i = .array e) :
    g.below (.item i) = insert (.item i) (g.below (.item e)) := by
  rw [below_eq_insert]
  congr 1
  ext z
  constructor
  · rintro ⟨y, hy, hyz⟩
    rcases link_item_iff.mp hy with ⟨e', he', rfl⟩ | ⟨o, ho, -⟩
    · obtain rfl := Item.array.inj (hi.symm.trans he')
      exact hyz
    · exact nomatch hi.symm.trans ho
  · exact fun hz => ⟨_, link_item_item_iff.mpr hi, hz⟩

theorem below_scalar {s : Scalar} (hi : g.item i = .scalar s) : g.below (.item i) = {.item i} := by
  rw [below_eq_insert]
  ext z
  constructor
  · rintro (rfl | ⟨y, hy, -⟩)
    · rfl
    · rcases link_item_iff.mp hy with ⟨e, he, -⟩ | ⟨o, ho, -⟩
      · exact nomatch hi.symm.trans he
      · exact nomatch hi.symm.trans ho
  · exact .inl

theorem below_object {o : ObjectNode} (hi : g.object? i = some o) :
    g.below (.item i) = insert (.item i) { z | ∃ p ∈ o.properties.elements, g.Leads (.property p) z } := by
  rw [below_eq_insert]
  congr 1
  ext z
  constructor
  · rintro ⟨y, hy, hyz⟩
    rcases link_item_iff.mp hy with ⟨e, he, -⟩ | ⟨o', ho', p, hp, rfl⟩
    · exact nomatch (object?_eq_some_iff.mp hi).symm.trans he
    · obtain rfl := Item.object.inj ((object?_eq_some_iff.mp hi).symm.trans ho')
      exact ⟨p, hp, hyz⟩
  · rintro ⟨p, hp, hz⟩
    exact ⟨_, link_item_property_iff.mpr ⟨o, hi, hp⟩, hz⟩

/-- What leads to a property from elsewhere leads to an object that has it. -/
theorem exists_holder_of_leads (hx : g.Leads x (.property p)) (hne : x ≠ .property p) :
    ∃ k, g.Leads x (.item k) ∧ g.Link (.item k) (.property p) := by
  rcases Relation.ReflTransGen.cases_tail hx with rfl | ⟨y, hxy, hyp⟩
  · exact absurd rfl hne
  · cases y with
    | item k => exact ⟨k, hxy, hyp⟩
    | property q => exact nomatch link_property_iff.mp hyp

/-! ### The walk -/

/-- A mark renames the objects below a node by `ρ`, each of them once, and the walk comes to all of them. -/
structure Walkable (g : Graph) (m : Mark) (ρ : String → String) (x : Node) : Prop where
  ranked : g.Ranked x
  bounded : ∀ {p : PropertyId}, g.Leads x (.property p) → p.index < g.properties.size
  nodup : ∀ {i : ItemId} {o : ObjectNode}, g.Leads x (.item i) → g.object? i = some o → o.properties.elements.Nodup
  holder_unique : ∀ {i j : ItemId} {p : PropertyId}, g.Leads x (.item i) → g.Leads x (.item j) →
    g.Link (.item i) (.property p) → g.Link (.item j) (.property p) → i = j
  rename?_eq_some : ∀ {i : ItemId} {o : ObjectNode}, g.Leads x (.item i) → g.object? i = some o →
    m.rename? o.typeName = some (m, ρ o.typeName)
  rename?_eq_none : ∀ {i : ItemId} {o : ObjectNode}, g.Leads x (.item i) → g.object? i = some o →
    m.rename? (ρ o.typeName) = none

/-- Below a node, objects are painted with everything below them, or not at all. -/
structure Tidy (g : Graph) (S : Set Node) (x : Node) : Prop where
  done : ∀ {k : ItemId} {o : ObjectNode}, g.Leads x (.item k) → g.object? k = some o → .item k ∈ S →
    g.below (.item k) ⊆ S
  fresh : ∀ {k : ItemId} {p : PropertyId}, g.Leads x (.item k) → .item k ∉ S → g.Link (.item k) (.property p) →
    .property p ∉ S

theorem tidy_empty (g : Graph) (x : Node) : g.Tidy ∅ x :=
  ⟨fun _ _ hk => absurd hk (Set.notMem_empty _), fun _ _ _ => Set.notMem_empty _⟩

variable {m : Mark}

theorem Walkable.of_leads (hx : g.Walkable m ρ x) (hxy : g.Leads x y) : g.Walkable m ρ y where
  ranked := hx.ranked.of_leads hxy
  bounded hp := hx.bounded (hxy.trans hp)
  nodup hi := hx.nodup (hxy.trans hi)
  holder_unique hi hj := hx.holder_unique (hxy.trans hi) (hxy.trans hj)
  rename?_eq_some hi := hx.rename?_eq_some (hxy.trans hi)
  rename?_eq_none hi := hx.rename?_eq_none (hxy.trans hi)

theorem Tidy.of_leads (hx : g.Tidy S x) (hxy : g.Leads x y) : g.Tidy S y :=
  ⟨fun hk => hx.done (hxy.trans hk), fun hk => hx.fresh (hxy.trans hk)⟩

section Siblings

variable (hi : g.Walkable m ρ (.item i))

include hi

/-- Nothing below a property of an object leads back to the object. -/
theorem Walkable.not_leads_property (hp : g.Link (.item i) (.property p)) : ¬ g.Leads (.property p) (.item i) :=
  hi.ranked.not_leads hp

/-- A property of an object is not found below another one. -/
theorem Walkable.eq_of_leads (hp : g.Link (.item i) (.property p)) (hq : g.Link (.item i) (.property q))
    (hpq : g.Leads (.property p) (.property q)) : p = q := by
  by_contra hne
  obtain ⟨k, hpk, hkq⟩ := exists_holder_of_leads hpq (fun h => hne (Node.property.inj h))
  obtain rfl := hi.holder_unique (.head hp hpk) .refl hkq hq
  exact hi.not_leads_property hp hpk

/-- Painting everything below a property of an object leaves it tidy below the others. -/
theorem Tidy.union_below (hp : g.Link (.item i) (.property p)) (hq : g.Link (.item i) (.property q))
    (htidy : g.Tidy S (.property q)) : g.Tidy (S ∪ g.below (.property p)) (.property q) := by
  refine ⟨fun hk ho hkS => ?_, fun {k r} hk hkS hkr => ?_⟩
  · rcases hkS with hkS | hkS
    · exact (htidy.done hk ho hkS).trans Set.subset_union_left
    · exact fun y hy => .inr (Relation.ReflTransGen.trans hkS hy)
  · rw [Set.mem_union, not_or] at hkS ⊢
    refine ⟨htidy.fresh hk hkS.1 hkr, fun hpr => ?_⟩
    by_cases hrp : r = p
    · subst hrp
      obtain rfl := hi.holder_unique (.head hq hk) .refl hkr hp
      exact hi.not_leads_property hq hk
    · obtain ⟨l, hpl, hlr⟩ := exists_holder_of_leads hpr (fun h => hrp (Node.property.inj h).symm)
      obtain rfl := hi.holder_unique (.head hp hpl) (.head hq hk) hlr hkr
      exact hkS.2 hpl

/-- Once a property of an object is painted itself, it is still tidy below its item. -/
theorem Tidy.insert_property (hp : g.Link (.item i) (.property p)) (htidy : g.Tidy S (.property p)) :
    g.Tidy (insert (.property p) S) (.item (g.property p).item) := by
  have htidy := htidy.of_leads (.single (link_property_iff.mpr rfl))
  refine ⟨fun hk ho hkS => ?_, fun {k r} hk hkS hkr => ?_⟩
  · exact (htidy.done hk ho (hkS.resolve_left (by simp))).trans (Set.subset_insert _ _)
  · rintro (hrp | hrS)
    · obtain rfl := Node.property.inj hrp
      have hpk : g.Leads (.property r) (.item k) := .head (link_property_iff.mpr rfl) hk
      obtain rfl := hi.holder_unique (.head hp hpk) .refl hkr hp
      exact hi.not_leads_property hp hpk
    · exact htidy.fresh hk (fun h => hkS (.inr h)) hkr hrS

end Siblings

/-- What the walk through the properties of an object does, given what the walk from an item does. -/
private theorem painted_foldl_renameWithin {depth : Nat}
    (ih : ∀ (S : Set Node) (h : Graph) (j : ItemId), Painted ρ (·.follow m) S g h → g.Walkable m ρ (.item j) →
      g.Tidy S (.item j) → g.rank j ≤ depth →
      ∃ h', renameWithin depth h j m = (h', m) ∧ Painted ρ (·.follow m) (S ∪ g.below (.item j)) g h')
    (hi : g.Walkable m ρ (.item i)) (hrank : g.rank i ≤ depth + 1) (ps : List PropertyId) :
    ∀ (S : Set Node) (h : Graph), Painted ρ (·.follow m) S g h → ps.Nodup →
      (∀ p ∈ ps, g.Link (.item i) (.property p) ∧ .property p ∉ S ∧ g.Tidy S (.property p)) →
      ∃ h', ps.foldl (fun (g, m) p => renameWithin depth (g.followMark p m) (g.property p).item m) (h, m) = (h', m) ∧
        Painted ρ (·.follow m) (S ∪ { z | ∃ p ∈ ps, g.Leads (.property p) z }) g h' := by
  induction ps with
  | nil =>
    intro S h hpaint _ _
    exact ⟨h, rfl, by simpa using hpaint⟩
  | cons p ps ihps =>
    intro S h hpaint hnodup hps
    obtain ⟨hlink, hnew, htidy⟩ := hps p (by simp)
    have hitem : g.Leads (.item i) (.item (g.property p).item) :=
      .head hlink (.single (link_property_iff.mpr rfl))
    have hlt : g.rank (g.property p).item < g.rank i := hi.ranked.held .refl hlink
    have hpaint₁ := hpaint.followMark hnew (hi.bounded (.single hlink))
    obtain ⟨h₁, hwalk, hpaint₂⟩ := ih _ (h.followMark p m) (g.property p).item hpaint₁ (hi.of_leads hitem)
      (htidy.insert_property hi hlink) (by omega)
    -- The walk has painted the property and everything below it.
    have hset : insert (.property p) S ∪ g.below (.item (g.property p).item) = S ∪ g.below (.property p) := by
      rw [below_property, Set.insert_union, Set.union_insert]
    rw [hset] at hpaint₂
    obtain ⟨h₂, hfold, hpaint₃⟩ := ihps _ h₁ hpaint₂ (List.nodup_cons.mp hnodup).2 (fun q hq => by
      obtain ⟨hlinkq, hnewq, htidyq⟩ := hps q (by simp [hq])
      refine ⟨hlinkq, ?_, htidyq.union_below hi hlink hlinkq⟩
      rw [Set.mem_union, not_or]
      refine ⟨hnewq, fun hpq => ?_⟩
      obtain rfl := hi.eq_of_leads hlink hlinkq hpq
      exact (List.nodup_cons.mp hnodup).1 hq)
    refine ⟨h₂, ?_, ?_⟩
    · rw [List.foldl_cons]
      change List.foldl _ (renameWithin depth (h.followMark p m) (h.property p).item m) ps = _
      rw [hpaint.property_item p, hwalk]
      exact hfold
    · have hset' : S ∪ g.below (.property p) ∪ { z | ∃ q ∈ ps, g.Leads (.property q) z } =
          S ∪ { z | ∃ q ∈ p :: ps, g.Leads (.property q) z } := by
        ext z
        simp [below, or_assoc]
      rwa [hset'] at hpaint₃

/-- The walk down from an item paints everything below it. -/
theorem painted_renameWithin (depth : Nat) : ∀ (S : Set Node) (h : Graph) (i : ItemId),
    Painted ρ (·.follow m) S g h → g.Walkable m ρ (.item i) → g.Tidy S (.item i) → g.rank i ≤ depth →
    ∃ h', renameWithin depth h i m = (h', m) ∧ Painted ρ (·.follow m) (S ∪ g.below (.item i)) g h' := by
  induction depth with
  | zero =>
    intro S h i hpaint _ _ hrank
    cases hitem : g.item i with
    | scalar s =>
      refine ⟨h, rfl, ?_⟩
      rw [below_scalar hitem, Set.union_singleton]
      exact hpaint.insert_item (by simp [hitem])
    | array e => simp [rank, hitem] at hrank
    | object o => simp [rank, hitem] at hrank
  | succ depth ih =>
    intro S h i hpaint hi htidy hrank
    cases hitem : g.item i with
    | scalar s =>
      refine ⟨h, by rw [renameWithin, hpaint.scalar_iff.mpr hitem], ?_⟩
      rw [below_scalar hitem, Set.union_singleton]
      exact hpaint.insert_item (by simp [hitem])
    | array e =>
      have hlead : g.Leads (.item i) (.item e) := .single (link_item_item_iff.mpr hitem)
      have hlt : g.rank e < g.rank i := hi.ranked.element .refl hitem
      obtain ⟨h', hwalk, hpaint'⟩ := ih S h e hpaint (hi.of_leads hlead) (htidy.of_leads hlead) (by omega)
      refine ⟨h', by rw [renameWithin, hpaint.array_iff.mpr hitem]; exact hwalk, ?_⟩
      rw [below_array hitem, Set.union_insert]
      exact hpaint'.insert_item (by simp [hitem])
    | object o =>
      have ho : g.object? i = some o := object?_eq_some_iff.mpr hitem
      by_cases hiS : .item i ∈ S
      · -- The object is renamed already, and everything below it is painted.
        refine ⟨h, ?_, ?_⟩
        · rw [renameWithin, hpaint.item_of_mem hiS, hitem]
          simp only [Item.renamed, hi.rename?_eq_none .refl ho]
        · rwa [Set.union_eq_self_of_subset_right (htidy.done .refl ho hiS)]
      · -- The object is renamed here, and then the walk goes through its properties, none of which is painted yet.
        have hlinks : ∀ p ∈ o.properties.elements, g.Link (.item i) (.property p) :=
          fun p hp => link_item_property_iff.mpr ⟨o, ho, hp⟩
        obtain ⟨h', hfold, hpaint'⟩ := painted_foldl_renameWithin ih hi hrank o.properties.elements _ _
          (hpaint.setItem ho) (hi.nodup .refl ho) (fun p hp => by
            refine ⟨hlinks p hp, ?_, ?_⟩
            · rintro (hpi | hpS)
              · cases hpi
              · exact htidy.fresh .refl hiS (hlinks p hp) hpS
            · have htidyp := htidy.of_leads (.single (hlinks p hp))
              refine ⟨fun hk hko hkS => ?_, fun hk hkS hkq => ?_⟩
              · rcases hkS with hki | hkS
                · obtain rfl := Node.item.inj hki
                  exact absurd hk (hi.not_leads_property (hlinks p hp))
                · exact (htidyp.done hk hko hkS).trans (Set.subset_insert _ _)
              · rintro (hqi | hqS)
                · cases hqi
                · exact htidyp.fresh hk (fun h => hkS (.inr h)) hkq hqS)
        refine ⟨h', ?_, ?_⟩
        · rw [renameWithin, hpaint.item_of_notMem hiS, hitem]
          simp only [hi.rename?_eq_some .refl ho]
          exact hfold
        · rw [below_object ho, Set.union_insert]
          rwa [Set.insert_union] at hpaint'

/-! ### Renames -/

/-- A rename ends at once if the mark leaves the name of the first object alone. -/
theorem renameWithin_eq_self (depth : Nat)
    (hnone : ∀ c o, g.Encloses i c → g.object? c = some o → m.rename? o.typeName = none) :
    renameWithin depth g i m = (g, m) := by
  induction depth generalizing i with
  | zero => rfl
  | succ depth ih =>
    rw [renameWithin]
    split
    · rfl
    · rename_i e hitem
      exact ih fun c o hc ho => hnone c o (.array hitem hc) ho
    · rename_i o hitem
      simp only [hnone i o (.refl i) (object?_eq_some_iff.mpr hitem)]

/-- Two marks rename alike if they rename the first object alike and become the same mark. -/
theorem renameWithin_congr {m m' : Mark} {name : String} {c : ItemId} {o : ObjectNode} (henc : g.Encloses i c)
    (ho : g.object? c = some o) (hm : m.rename? o.typeName = some (m', name))
    (hm' : m'.rename? o.typeName = some (m', name)) (hranked : g.Ranked (.item i)) :
    ∀ depth, g.rank i ≤ depth → renameWithin depth g i m = renameWithin depth g i m' := by
  induction henc with
  | refl i =>
    intro depth hrank
    obtain ⟨depth, rfl⟩ : ∃ d, depth = d + 1 := ⟨depth - 1, by have := rank_pos_of_object? ho; omega⟩
    rw [renameWithin, renameWithin, object?_eq_some_iff.mp ho]
    simp only [hm, hm']
  | array hitem _ ih =>
    intro depth hrank
    have hlt := hranked.element .refl hitem
    obtain ⟨depth, rfl⟩ : ∃ d, depth = d + 1 := ⟨depth - 1, by omega⟩
    rw [renameWithin, renameWithin, hitem]
    exact ih ho (hranked.of_leads (.single (link_item_item_iff.mpr hitem))) depth (by omega)

open Text (byteLength)

/-- A rename through an unused mark paints everything below the item, if the first object has a name that does not
read `common` behind the stem. -/
theorem painted_rename {stem segment : String} {c : ItemId} {o : ObjectNode} (henc : g.Encloses i c)
    (ho : g.object? c = some o) (hname : o.typeName = stem ++ segment) (hunused : m.used = false)
    (hstart : m.start = byteLength stem) (hsegment : Mark.readsCommon segment = false)
    (hwalk : g.Walkable (.spanning stem segment) ρ (.item i)) :
    ∃ h, g.rename i m = (h, .spanning stem segment) ∧
      Painted ρ (·.follow (.spanning stem segment)) (g.below (.item i)) g h := by
  have hfirst : m.rename? o.typeName = some (.spanning stem segment, stem ++ Mark.common) :=
    hname ▸ Mark.rename?_of_unused hstart hunused hsegment
  have hagain : (Mark.spanning stem segment).rename? o.typeName =
      some (.spanning stem segment, stem ++ Mark.common) := by
    have h := (Mark.spanning_spans stem segment).rename?_eq_some hsegment Mark.isTail_empty
    rwa [String.append_empty, String.append_empty, ← hname] at h
  obtain ⟨h, hrename, hpaint⟩ := painted_renameWithin g.depth ∅ g i (.refl ρ _ g) hwalk (tidy_empty g _)
    (rank_le_depth g i)
  refine ⟨h, ?_, ?_⟩
  · rw [rename, renameWithin_congr henc ho hfirst hagain hwalk.ranked g.depth (rank_le_depth g i)]
    exact hrename
  · rwa [Set.empty_union] at hpaint

end Graph

end Schemata
