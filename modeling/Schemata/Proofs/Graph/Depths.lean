import Schemata.Proofs.Graph.Origins
import Schemata.Proofs.Schema
import Schemata.Proofs.Sharing.Classes

/-!
# Depths

The *depth* of a node below a root property is the number of properties above it on a way down from the root, arrays
left aside (`Graph.Under`). In a forest there is one way down to each node, so that nodes two steps below a node have one
depth. Sharing respects that: whatever the digests are, a node is found at those depths only where it was before
(`Planted.under_of_dedup`).

A property is placed by the level at which it is read, which is its depth. So it is placed by its depth after sharing as
well (`Graph.Tiered`).
-/

namespace Schemata

open Schemata.Graph (Planted Loose New Grown)

/-- The depth of what a node at depth `n` holds: a property leads one level down. -/
def Node.below : Node → Nat → Nat
  | .property _, n => n + 1
  | .item _, n => n

theorem Node.le_below (x : Node) (n : Nat) : n ≤ x.below n := by
  cases x with
  | property p => exact Nat.le_succ n
  | item i => exact le_rfl

namespace Graph

variable {b g h : Graph} {root p q : PropertyId} {x y z : Node} {n m : Nat}

/-- A node lies at a depth below a root property. -/
inductive Under (g : Graph) (root : PropertyId) : Nat → Node → Prop where
  /-- There is nothing above the root. -/
  | root : Under g root 0 (.property root)
  /-- Links lead down. -/
  | link {n : Nat} {x y : Node} (hx : Under g root n x) (hlink : g.Link x y) : Under g root (x.below n) y

theorem Under.exists_of_leads (hx : g.Under root n x) (hxy : g.Leads x y) : ∃ m, n ≤ m ∧ g.Under root m y := by
  induction hxy with
  | refl => exact ⟨n, le_rfl, hx⟩
  | @tail y z _ hlink ih =>
    obtain ⟨m, hm, hy⟩ := ih
    exact ⟨y.below m, hm.trans (y.le_below m), hy.link hlink⟩

/-- A node has one child, or only properties. -/
theorem eq_or_property_of_link (hy : g.Link x y) (hz : g.Link x z) :
    y = z ∨ ∃ p q, y = .property p ∧ z = .property q := by
  cases x with
  | property p => exact .inl ((link_property_iff.mp hy).trans (link_property_iff.mp hz).symm)
  | item i =>
    rcases link_item_iff.mp hy with ⟨e, he, rfl⟩ | ⟨o, ho, p, -, rfl⟩ <;>
      rcases link_item_iff.mp hz with ⟨e', he', rfl⟩ | ⟨o', ho', q, -, rfl⟩
    · exact .inl (congrArg _ (Item.array.inj (he.symm.trans he')))
    · exact nomatch he.symm.trans ho'
    · exact nomatch ho.symm.trans he'
    · exact .inr ⟨p, q, rfl, rfl⟩

theorem below_eq_of_link (hy : g.Link x y) (hz : g.Link x z) : y.below = z.below := by
  rcases eq_or_property_of_link hy hz with rfl | ⟨p, q, rfl, rfl⟩ <;> rfl

/-! ### Depths in a forest -/

section Forest

variable (hg : Planted b g) (hroot : Loose b g (.property root))

include hg hroot

theorem Planted.new_of_under (hx : g.Under root n x) : New b g x := by
  induction hx with
  | root => exact hroot.new
  | link _ hlink ih => exact hg.new_of_link ih hlink

/-- There is one way down to a node: through the node that holds it. -/
theorem Planted.under_iff (hx : New b g x) (hlink : g.Link x y) : g.Under root m y ↔ ∃ n, g.Under root n x ∧ m = x.below n := by
  constructor
  · intro hy
    cases hy with
    | root => exact absurd hlink (hroot.not_link x hx)
    | link hz hlink' =>
      obtain rfl := hg.holder_unique (hg.new_of_under hroot hz) hx hlink' hlink
      exact ⟨_, hz, rfl⟩
  · rintro ⟨n, hn, rfl⟩
    exact hn.link hlink

/-- Nodes two steps below a node have the same depths, and so has what they hold. -/
theorem Planted.cousinly : linked.Cousinly g (.property root) fun x => (x.below, { n | g.Under root n x }) := by
  intro x y y' z z' hx hy hy' hz hz'
  have hxnew : New b g x := hg.new_of_leads hroot.new hx
  have hbelow : z.below = z'.below := by
    rcases eq_or_property_of_link hy hy' with rfl | ⟨p, q, rfl, rfl⟩
    · exact below_eq_of_link hz hz'
    · rw [link_property_iff.mp hz, link_property_iff.mp hz']
      rfl
  refine Prod.ext hbelow (Set.ext fun m => ?_)
  change g.Under root m z ↔ g.Under root m z'
  rw [hg.under_iff hroot (hg.new_of_link hxnew hy) hz, hg.under_iff hroot (hg.new_of_link hxnew hy') hz']
  simp only [hg.under_iff hroot hxnew hy, hg.under_iff hroot hxnew hy', below_eq_of_link hy hy']

/-- **Sharing respects depths**, whatever the digests are. -/
theorem Planted.under_of_dedup (hx : (g.dedup root Schema.sharingLevel).Under root n x) : g.Under root n x := by
  induction hx with
  | root => exact .root
  | @link n x y _ hlink ih =>
    have hkept : ∀ n, g.Under root n x → g.Under root (x.below n) y :=
      Sharing.Linked.respects_share (ρ := fun c d => ∀ n ∈ c.2, c.1 n ∈ d.2) (S := { x | New b g x })
        (hg.cousinly hroot) mem_children_redirect hroot.new hg.new_of_link (fun _ hlink n hn => hn.link hlink)
        (hg.new_of_under hroot ih) hlink
    exact hkept n ih

end Forest

/-! ### Placements -/

/-- The properties below a root are placed by their depths. -/
def Tiered (g : Graph) (root : PropertyId) : Prop :=
  ∀ (n : Nat) (p : PropertyId), g.Under root n (.property p) → (g.property p).placement = .ofLevel n

/-- The level of the context in which a node was read is its depth. -/
theorem ReadIn.exists_of_under {ctx : Shape.Context} (hroot : g.ReadIn ctx (.property root)) (hlevel : ctx.level = 0)
    (hx : g.Under root n x) : ∃ ctx', ctx'.level = n ∧ g.ReadIn ctx' x := by
  induction hx with
  | root => exact ⟨ctx, hlevel, hroot⟩
  | @link n x y _ hlink ih =>
    obtain ⟨above, rfl, hx⟩ := ih
    cases x with
    | property p =>
      obtain ⟨data, -, hitem⟩ := hx.exists_below
      rw [link_property_iff.mp hlink]
      exact ⟨_, rfl, hitem⟩
    | item i =>
      rcases link_item_iff.mp hlink with ⟨e, he, rfl⟩ | ⟨o, ho, p, hp, rfl⟩
      · exact ⟨above, rfl, hx.encloses (.array he (.refl e))⟩
      · obtain ⟨required, -, hproperties⟩ := hx.exists_required (object?_eq_some_iff.mpr ho)
        exact ⟨above.property required (g.propertyName p), rfl, hproperties p hp⟩

theorem ReadIn.tiered {ctx : Shape.Context} (hroot : g.ReadIn ctx (.property root)) (hlevel : ctx.level = 0) :
    g.Tiered root := by
  intro n p hp
  obtain ⟨ctx', rfl, hread⟩ := hroot.exists_of_under hlevel hp
  exact hread.placement_eq

theorem placement_redirect (g : Graph) (r : Sharing.Redirection Node) (p : PropertyId) :
    ((g.redirect r).property p).placement = (g.property p).placement := by
  rcases g.redirect_cases r with heq | ⟨q, source, hr⟩ | ⟨i, source, destination, hr⟩ | ⟨i, o, source, destination, _, hr⟩
  · rw [heq]
  · obtain ⟨item, mark, hproperty⟩ := hr.moved.property_eq p
    rw [hproperty, property_setProperty]
    split_ifs with hp
    · rw [hp.1]
    · rfl
  · rw [hr.graph_eq, property_setItem]
  · rw [hr.graph_eq, property_setItem]

theorem placement_dedup (g : Graph) (root p : PropertyId) (level : Nat) :
    ((g.dedup root level).property p).placement = (g.property p).placement :=
  List.foldlRecOn (motive := fun h : Graph => (h.property p).placement = (g.property p).placement) _ _ rfl
    fun h hh r _ => (placement_redirect h r p).trans hh

/-- Sharing keeps properties placed by their depths. -/
theorem Tiered.dedup (htiered : g.Tiered root) (hg : Planted b g) (hroot : Loose b g (.property root)) :
    (g.dedup root Schema.sharingLevel).Tiered root := by
  intro n p hp
  rw [placement_dedup]
  exact htiered n p (hg.under_of_dedup hroot hp)

end Graph

namespace Schema

variable {b g h : Graph} {root : PropertyId} {id : String} {data : Entries} {s : Schema}

/-- The property that refers to a parent is placed on top, where it is. -/
theorem tiered_addParent {o : ObjectNode} {parent : Option String} (htiered : g.Tiered root) (hg : Planted b g)
    (hroot : Loose b g (.property root)) (ho : g.object? (g.property root).item = some o)
    (hadd : addParent g id root parent = .ok h) : h.Tiered root := by
  have hitem : New b g (.item (g.property root).item) := hg.new_of_link hroot.new (Graph.link_property_iff.mpr rfl)
  have hlt : ∀ p ∈ o.properties.elements, p.index < g.properties.size := fun p hp =>
    (hg.new_of_link hitem (Graph.link_item_property_iff.mpr ⟨o, ho, hp⟩)).2
  cases parent with
  | none =>
    obtain rfl := Except.ok.inj hadd
    exact htiered
  | some parent =>
    obtain ⟨-, rfl⟩ := (addParent_some_eq_ok_iff hroot.new.2 ho hlt).mp hadd
    set leaf := g.addLeaf (parentField parent) (parentScalar parent) with hleaf
    set joined := leaf.1.setItem (g.property root).item
      (.object { o with properties := o.properties.put (parentProperty parent) ⟨g.properties.size⟩ }) with hjoined
    have hgrown : Grown g leaf.1 := g.grown_addLeaf _ _
    have hobject : leaf.1.object? (g.property root).item = some o := (hitem.object?_eq hgrown).trans ho
    have hleafProperty : leaf.1.property leaf.2 = { toField := parentField parent, item := ⟨g.items.size⟩ } :=
      Graph.property_addProperty_self _ _
    -- Besides what was there, there is the property at depth one and the scalar that it holds.
    have hunder : ∀ {n x}, joined.Under root n x →
        g.Under root n x ∨ (n = 1 ∧ x = .property leaf.2) ∨ x = .item ⟨g.items.size⟩ := by
      intro n x hx
      induction hx with
      | root => exact .inl .root
      | @link n x y _ hlink ih =>
        rcases Graph.link_of_link_setProperties (p := leaf.2) hobject (fun q hq => Registry.mem_elements_put hq) hlink with
          hlink | ⟨rfl, rfl⟩
        · rcases ih with hx | ⟨-, rfl⟩ | rfl
          · exact .inl (hx.link (((hg.new_of_under hroot hx).link_iff hgrown).mp hlink))
          · refine .inr (.inr ?_)
            rw [Graph.link_property_iff.mp hlink, hleafProperty]
          · have hscalar : leaf.1.item ⟨g.items.size⟩ = .scalar (parentScalar parent) := Graph.item_addItem_self g _
            rw [Graph.Link, Graph.children_item, hscalar] at hlink
            exact absurd hlink List.not_mem_nil
        · -- The root object lies at depth one only.
          rcases ih with hx | ⟨-, hx⟩ | hx
          · obtain ⟨m, hm, rfl⟩ := (hg.under_iff hroot hroot.new (Graph.link_property_iff.mpr rfl)).mp hx
            cases hm with
            | root => exact .inr (.inl ⟨rfl, rfl⟩)
            | link hy hlink' => exact absurd hlink' (hroot.not_link _ (hg.new_of_under hroot hy))
          · cases hx
          · rw [Node.item.inj hx] at hitem
            exact absurd hitem.2 (Nat.lt_irrefl _)
    intro n p hp
    rcases hunder hp with hp | ⟨rfl, heq⟩ | heq
    · change (leaf.1.property p).placement = _
      rw [hgrown.property_eq p (hg.new_of_under hroot hp).2]
      exact htiered n p hp
    · rw [Node.property.inj heq]
      change (leaf.1.property leaf.2).placement = _
      rw [hleafProperty]
      rfl
    · cases heq

/-- **The properties of a schema that is read are placed by their depths**, before and after sharing. -/
theorem tiered_of_parse (hparse : parse g data = .ok (h, s)) : h.Tiered s.root := by
  rw [parse, bind_eq_ok_iff] at hparse
  obtain ⟨⟨g₀, t⟩, hread, hparse⟩ := hparse
  obtain ⟨rfl, rfl⟩ := Prod.mk.inj (Except.ok.inj hparse)
  obtain ⟨hplanted, hloose, -⟩ := planted_read hread
  refine Graph.Tiered.dedup ?_ hplanted hloose
  obtain ⟨id, parent, bases, body, next, -, -, -, hproperty, hobject, hparent, rfl⟩ := read_cases hread
  obtain ⟨hplanted', hloose', -⟩ := planted_parseProperty (.refl g) hproperty
  obtain ⟨o, ho⟩ := Graph.exists_object?_of_isObject hobject
  exact tiered_addParent ((Graph.readIn_parseProperty hproperty).2.tiered rfl) hplanted' hloose' ho hparent

end Schema

end Schemata
