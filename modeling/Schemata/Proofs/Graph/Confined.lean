import Schemata.Proofs.Graph.Planting
import Schemata.Proofs.Sharing.Seats
import Schemata.Schema

/-!
# Sharing is confined

Sharing the equal subtrees below a root changes nodes below the root only, whatever the digests are. Even if they take
different subtrees for equal, a node is only ever asked to hold another node below the root, so everything below the
root stays below it, objects stay objects and go on filing their properties by name, and the root goes on holding what it
held (`Graph.Confined`).

This is what the other schemas in a graph can rely on when one more schema is read (`confined_dedup`).
-/

namespace Schemata.Graph

variable {g h : Graph} {root : PropertyId} {S : Set Node} {i j : ItemId} {p q : PropertyId} {x y : Node}

/-- `h` comes from `g` by changes to nodes of `S`. These go on leading to nodes of `S` only, and keep what others can rely
on. -/
structure Confined (root : PropertyId) (S : Set Node) (g h : Graph) : Prop where
  items_size : h.items.size = g.items.size
  properties_size : h.properties.size = g.properties.size
  item_eq : ∀ {i : ItemId}, .item i ∉ S → h.item i = g.item i
  property_eq : ∀ {p : PropertyId}, .property p ∉ S → h.property p = g.property p
  closed : ∀ {x y : Node}, x ∈ S → h.Link x y → y ∈ S
  filed : ∀ {i : ItemId} {o : ObjectNode}, .item i ∈ S → h.object? i = some o → o.properties.Filed h.propertyName
  isObject_eq : ∀ i, (h.item i).isObject = (g.item i).isObject
  propertyName_eq : ∀ p, h.propertyName p = g.propertyName p
  root_item : (h.property root).item = (g.property root).item

namespace Confined

variable (hconfined : Confined root S g h)

include hconfined

/-! ### Updates -/

theorem setItem {item : Item} (hi : .item i ∈ S) (hchildren : ∀ y ∈ item.children, y ∈ S)
    (hfiled : ∀ o, item = .object o → o.properties.Filed h.propertyName)
    (hobject : item.isObject = (h.item i).isObject) : Confined root S g (h.setItem i item) where
  items_size := by rw [size_items_setItem, hconfined.items_size]
  properties_size := hconfined.properties_size
  item_eq {j} hj := by
    rw [item_setItem_of_ne, hconfined.item_eq hj]
    rintro rfl
    exact hj hi
  property_eq := hconfined.property_eq
  closed {x y} hx hlink := by
    cases x with
    | property p => exact hconfined.closed hx hlink
    | item j =>
      rw [Link, children_item, item_setItem] at hlink
      split_ifs at hlink
      · exact hchildren y hlink
      · exact hconfined.closed hx (by rwa [Link, children_item])
  filed {j o} hj ho := by
    rw [object?_eq_some_iff, item_setItem] at ho
    split_ifs at ho
    · exact hfiled o ho
    · exact hconfined.filed hj (object?_eq_some_iff.mpr ho)
  isObject_eq j := by
    rw [item_setItem]
    split_ifs with hj
    · rw [hobject, ← hj.1, hconfined.isObject_eq]
    · exact hconfined.isObject_eq j
  propertyName_eq := hconfined.propertyName_eq
  root_item := hconfined.root_item

theorem setProperty {property : Property} (hp : .property p ∈ S) (hitem : .item property.item ∈ S)
    (hname : property.name = h.propertyName p) (hroot : p = root → property.item = (h.property root).item) :
    Confined root S g (h.setProperty p property) := by
  have hnames : (h.setProperty p property).propertyName = h.propertyName := by
    funext q
    rw [propertyName, property_setProperty]
    split_ifs with hq
    · rw [hname, hq.1]
    · rfl
  refine ⟨hconfined.items_size, ?_, hconfined.item_eq, fun {q} hq => ?_, fun {x y} hx hlink => ?_, fun hi ho => ?_,
    hconfined.isObject_eq, fun q => ?_, ?_⟩
  · rw [size_properties_setProperty, hconfined.properties_size]
  · rw [property_setProperty_of_ne, hconfined.property_eq hq]
    rintro rfl
    exact hq hp
  · cases x with
    | item i => exact hconfined.closed hx hlink
    | property q =>
      rw [link_property_iff, property_setProperty] at hlink
      split_ifs at hlink
      · rwa [hlink]
      · exact hconfined.closed hx (link_property_iff.mpr hlink)
  · rw [hnames]
    exact hconfined.filed hi ho
  · rw [hnames, hconfined.propertyName_eq]
  · rw [property_setProperty]
    split_ifs with hq
    · rw [hroot hq.1.symm, hconfined.root_item]
    · exact hconfined.root_item

theorem item_mem (hp : .property p ∈ S) : .item (h.property p).item ∈ S :=
  hconfined.closed hp (link_property_iff.mpr rfl)

/-! ### Renames -/

theorem followMark (hp : .property p ∈ S) (m : Mark) : Confined root S g (h.followMark p m) :=
  hconfined.setProperty hp (hconfined.item_mem hp) rfl fun heq => by rw [heq]

end Confined

theorem Confined.renameWithin (depth : Nat) : ∀ (h : Graph) (i : ItemId) (m : Mark), Confined root S g h →
    .item i ∈ S → Confined root S g (Graph.renameWithin depth h i m).1 := by
  induction depth with
  | zero => exact fun h i m hconfined _ => hconfined
  | succ depth ih =>
    intro h i m hconfined hi
    have hfold : ∀ (ps : List PropertyId) (h : Graph) (m : Mark), Confined root S g h → (∀ p ∈ ps, .property p ∈ S) →
        Confined root S g (ps.foldl
          (fun a p => Graph.renameWithin depth (a.1.followMark p a.2) (a.1.property p).item a.2) (h, m)).1 := by
      intro ps
      induction ps with
      | nil => exact fun h m hconfined _ => hconfined
      | cons p ps ihps =>
        intro h m hconfined hps
        have hp : .property p ∈ S := hps p (by simp)
        rw [List.foldl_cons]
        exact ihps _ _ (ih _ _ m (hconfined.followMark hp m) (hconfined.item_mem hp))
          fun q hq => hps q (List.mem_cons_of_mem _ hq)
    rw [Graph.renameWithin]
    split
    · exact hconfined
    · -- An array is passed through.
      rename_i e hitem
      exact ih h e m hconfined (hconfined.closed hi (link_item_item_iff.mpr hitem))
    · rename_i o hitem
      have ho : h.object? i = some o := object?_eq_some_iff.mpr hitem
      have hps : ∀ p ∈ o.properties.elements, .property p ∈ S :=
        fun p hp => hconfined.closed hi (link_item_property_iff.mpr ⟨o, ho, hp⟩)
      split
      · exact hconfined
      · rename_i m' name _
        refine hfold _ _ m' (hconfined.setItem hi (fun y hy => ?_) (fun o' ho' => ?_) ?_) hps
        · obtain ⟨p, hp, rfl⟩ := List.mem_map.mp hy
          exact hps p hp
        · have hfiled := hconfined.filed hi ho
          obtain rfl := Item.object.inj ho'
          exact hfiled
        · rw [hitem]
          rfl

theorem Confined.rename (hconfined : Confined root S g h) (hi : .item i ∈ S) (m : Mark) :
    Confined root S g (h.rename i m).1 :=
  Confined.renameWithin h.depth h i m hconfined hi

/-! ### Redirections -/

namespace Confined

variable (hconfined : Confined root S g h)

include hconfined

theorem replaceItem {source destination : ItemId} (hp : .property p ∈ S) (hroot : p ≠ root)
    (hsource : .item source ∈ S) : Confined root S g (h.replaceItem p source destination) := by
  rw [Graph.replaceItem]
  split_ifs
  · have hmoved : Confined root S g (h.setProperty p { h.property p with item := source }) :=
      hconfined.setProperty hp hsource rfl fun heq => absurd heq hroot
    have hrenamed := hmoved.rename hsource (h.property p).mark
    exact hrenamed.setProperty hp (hrenamed.item_mem hp) rfl fun heq => absurd heq hroot
  · exact hconfined

theorem replaceElement {source destination : ItemId} (hi : .item i ∈ S) (hsource : .item source ∈ S) :
    Confined root S g (h.replaceElement i source destination) := by
  rw [Graph.replaceElement]
  split
  · rename_i e hitem
    split_ifs
    · refine hconfined.setItem hi (fun y hy => ?_) (fun o ho => nomatch ho) ?_
      · rwa [List.mem_singleton.mp hy]
      · rw [hitem]
        rfl
    · exact hconfined
  · exact hconfined

theorem replaceProperty {source destination : PropertyId} (hi : .item i ∈ S) (hsource : .property source ∈ S) :
    Confined root S g (h.replaceProperty i source destination) := by
  rw [Graph.replaceProperty]
  split
  · rename_i o hitem
    have ho : h.object? i = some o := object?_eq_some_iff.mpr hitem
    split_ifs
    · refine hconfined.setItem hi (fun y hy => ?_) (fun o' ho' => ?_) ?_
      · obtain ⟨p, hp, rfl⟩ := List.mem_map.mp hy
        rcases Registry.mem_elements_put hp with rfl | hp
        · exact hsource
        · have hp := Registry.mem_elements_erase hp
          exact hconfined.closed hi (link_item_property_iff.mpr ⟨o, ho, hp⟩)
      · have hfiled := (hconfined.filed hi ho).erase (h.propertyName destination)
        obtain rfl := Item.object.inj ho'
        exact hfiled.put rfl
      · rw [hitem]
        rfl
    · exact hconfined
  · exact hconfined

theorem redirect {r : Sharing.Redirection Node} (hholder : r.holder ∈ S) (hroot : r.holder ≠ .property root)
    (hsource : r.source ∈ S) : Confined root S g (h.redirect r) := by
  obtain ⟨holder | holder, source | source, destination | destination⟩ := r
  · exact hconfined
  · exact hconfined
  · exact hconfined
  · exact hconfined.replaceItem hholder (fun heq => hroot (by rw [heq])) hsource
  · exact hconfined.replaceProperty hholder hsource
  · exact hconfined
  · exact hconfined
  · exact hconfined.replaceElement hholder hsource

end Confined

/-! ### Sharing -/

/-- A region from which nothing leads out. -/
theorem confined_refl (hclosed : ∀ {x y : Node}, x ∈ S → g.Link x y → y ∈ S)
    (hfiled : ∀ {i : ItemId} {o : ObjectNode}, .item i ∈ S → g.object? i = some o →
      o.properties.Filed g.propertyName) : Confined root S g g :=
  ⟨rfl, rfl, fun _ => rfl, fun _ => rfl, hclosed, hfiled, fun _ => rfl, fun _ => rfl, rfl⟩

/-- **Sharing is confined to a region** from which nothing leads out, if the root is in it and nothing in it leads to
the root. -/
theorem confined_dedup (hclosed : ∀ {x y : Node}, x ∈ S → g.Link x y → y ∈ S)
    (hfiled : ∀ {i : ItemId} {o : ObjectNode}, .item i ∈ S → g.object? i = some o →
      o.properties.Filed g.propertyName)
    (hroot : .property root ∈ S) (hloose : ∀ x ∈ S, ¬ g.Link x (.property root)) :
    Confined root S g (g.dedup root Schema.sharingLevel) := by
  have hbelow : ∀ {x}, g.Leads (.property root) x → x ∈ S := by
    intro x hx
    induction hx with
    | refl => exact hroot
    | tail _ hlink ih => exact hclosed ih hlink
  have hplan : ∀ r ∈ linked.plan g (.property root) Schema.sharingLevel,
      r.holder ∈ S ∧ r.holder ≠ .property root ∧ r.source ∈ S := by
    intro r hr
    obtain ⟨⟨x, hx, hlink⟩, y, z, hy, hz, hsource⟩ := Sharing.Linked.reaches_of_mem_plan hr
    have hx : x ∈ S := hbelow hx
    refine ⟨hclosed hx hlink, fun heq => ?_, hbelow ((hy.tail hz).tail hsource)⟩
    rw [heq] at hlink
    exact hloose x hx hlink
  -- The plan is fixed before the first redirection, so what is known of it holds throughout the run.
  rw [dedup, Sharing.Linked.share]
  generalize linked.plan g (.property root) Schema.sharingLevel = steps at hplan
  suffices hrun : ∀ h, Confined root S g h → Confined root S g (steps.foldl redirect h) from
    hrun g (confined_refl hclosed hfiled)
  induction steps with
  | nil => exact fun h hconfined => hconfined
  | cons r steps ih =>
    intro h hconfined
    obtain ⟨hholder, hne, hsource⟩ := hplan r (by simp)
    exact ih (fun r' hr' => hplan r' (List.mem_cons_of_mem _ hr')) _ (hconfined.redirect hholder hne hsource)

end Schemata.Graph
