import Schemata.Proofs.Graph.Siblings
import Schemata.Proofs.Sharing.Unfolding

/-!
# Sound graphs

A graph is *sound* if its links stay inside it and do not lead back, and if its objects file their properties by name
(`Graph.Sound`). The walks over a graph rely on this: no path is longer than the graph has nodes (`Sound.exists_graded`).

A graph that definition trees are planted in stays sound (`Planted.sound`): the trees are apart from what was there.
-/

namespace Schemata.Graph

open Sharing (Acyclic Graded)

variable {b g h : Graph} {i : ItemId} {p : PropertyId} {x y : Node}

/-- A node is there. -/
def Present (g : Graph) : Node → Prop
  | .item i => i.index < g.items.size
  | .property p => p.index < g.properties.size

/-- Links stay inside the graph and do not lead back, and objects file their properties by name. -/
structure Sound (g : Graph) : Prop where
  present : ∀ {x y : Node}, g.Present x → g.Link x y → g.Present y
  acyclic : Acyclic g.children
  filed : ∀ {i : ItemId} {o : ObjectNode}, g.object? i = some o → o.properties.Filed g.propertyName

/-! ### Ranks -/

/-- The nodes of a graph. -/
def nodes (g : Graph) : Finset Node :=
  (Finset.range g.items.size).image (fun n => .item ⟨n⟩) ∪ (Finset.range g.properties.size).image fun n => .property ⟨n⟩

theorem mem_nodes_iff : x ∈ g.nodes ↔ g.Present x := by
  cases x with
  | item i =>
    rcases i with ⟨n⟩
    simp [nodes, Present]
  | property p =>
    rcases p with ⟨n⟩
    simp [nodes, Present]

theorem card_nodes_le (g : Graph) : g.nodes.card ≤ g.items.size + g.properties.size :=
  calc g.nodes.card
      ≤ ((Finset.range g.items.size).image fun n => Node.item ⟨n⟩).card +
          ((Finset.range g.properties.size).image fun n => Node.property ⟨n⟩).card := Finset.card_union_le _ _
    _ ≤ (Finset.range g.items.size).card + (Finset.range g.properties.size).card :=
        Nat.add_le_add Finset.card_image_le Finset.card_image_le
    _ = g.items.size + g.properties.size := by rw [Finset.card_range, Finset.card_range]

/-- A sound graph is graded. -/
theorem Sound.exists_graded (hg : g.Sound) :
    ∃ rank, Graded g.children { x | g.Present x } (linked.bound g) rank := by
  obtain ⟨rank, hgraded, -⟩ := Sharing.exists_graded (fun x _ => hg.acyclic x) hg.present
    (fun hx _ => mem_nodes_iff.mpr hx) g.card_nodes_le
  exact ⟨rank, hgraded⟩

/-- What a node that is there leads to is there. -/
theorem Sound.present_of_leads (hg : g.Sound) (hx : g.Present x) (hxy : g.Leads x y) : g.Present y := by
  induction hxy with
  | refl => exact hx
  | tail _ hlink ih => exact hg.present ih hlink

/-- A node that leads back to itself is there. Outside of the graph a property may read anything, but nothing leads to
it. -/
theorem present_of_cycle (hpresent : ∀ {x y : Node}, g.Present x → g.Link x y → g.Present y)
    (hx : Relation.TransGen g.Link x x) : g.Present x := by
  have hlast : ∃ z, g.Link z x := by
    cases hx with
    | single hlink => exact ⟨x, hlink⟩
    | tail _ hlink => exact ⟨_, hlink⟩
  cases x with
  | item i =>
    by_contra hi
    have hchildren : g.children (.item i) = [] := by
      rw [children_item, item_of_size_le (Nat.le_of_not_lt hi)]
      rfl
    obtain ⟨y, hy, -⟩ := Relation.TransGen.head'_iff.mp hx
    rw [Link, hchildren] at hy
    exact absurd hy List.not_mem_nil
  | property p =>
    obtain ⟨z, hz⟩ := hlast
    cases z with
    | property q => cases link_property_iff.mp hz
    | item i =>
      obtain ⟨o, ho, -⟩ := link_item_property_iff.mp hz
      have hi : g.Present (.item i) := lt_of_object? ho
      exact hpresent hi hz

/-- Links do not lead back if they stay inside the graph and lead to lower ranks there. -/
theorem acyclic_of_present (rank : Node → Nat) (hpresent : ∀ {x y : Node}, g.Present x → g.Link x y → g.Present y)
    (hlt : ∀ {x y : Node}, g.Present x → g.Link x y → rank y < rank x) : Acyclic g.children := by
  intro x hx
  have hdown : ∀ {y}, g.Present x → Relation.TransGen g.Link x y → g.Present y ∧ rank y < rank x := by
    intro y hpx hxy
    induction hxy with
    | single hlink => exact ⟨hpresent hpx hlink, hlt hpx hlink⟩
    | tail _ hlink ih => exact ⟨hpresent ih.1 hlink, (hlt ih.1 hlink).trans ih.2⟩
  exact Nat.lt_irrefl _ (hdown (present_of_cycle hpresent hx) hx).2

/-! ### Planting -/

theorem sound_empty : ({} : Graph).Sound := by
  have hnone : ∀ x, ¬ ({} : Graph).Present x := by
    rintro (p | i) hx
    · exact absurd hx (Nat.not_lt_zero _)
    · exact absurd hx (Nat.not_lt_zero _)
  refine ⟨fun hx => absurd hx (hnone _), ?_, fun ho => absurd (lt_of_object? ho) (Nat.not_lt_zero _)⟩
  exact acyclic_of_present (fun _ => 0) (fun hx => absurd hx (hnone _)) fun hx => absurd hx (hnone _)

/-- A node that was there has the links that it had. -/
theorem Present.link_iff (hx : b.Present x) (hbg : Grown b g) : g.Link x y ↔ b.Link x y := by
  cases x with
  | item i => rw [Link, Link, children_item, children_item, hbg.item_eq i hx]
  | property p => rw [link_property_iff, link_property_iff, hbg.property_eq p hx]

theorem Present.grown (hx : b.Present x) (hbg : Grown b g) : g.Present x := by
  cases x with
  | item i => exact hx.trans_le hbg.items_le
  | property p => exact hx.trans_le hbg.properties_le

theorem New.present (hx : New b g x) : g.Present x := by
  cases x with
  | item i => exact hx.2
  | property p => exact hx.2

/-- A node is old or new. -/
theorem Present.old_or_new (hx : g.Present x) : b.Present x ∨ New b g x := by
  cases x with
  | item i => exact (Nat.lt_or_ge i.index b.items.size).imp_right fun hle => ⟨hle, hx⟩
  | property p => exact (Nat.lt_or_ge p.index b.properties.size).imp_right fun hle => ⟨hle, hx⟩

theorem Present.not_new (hx : b.Present x) : ¬ New b g x := by
  cases x with
  | item i => exact fun hnew => absurd hx (Nat.not_lt.mpr hnew.1)
  | property p => exact fun hnew => absurd hx (Nat.not_lt.mpr hnew.1)

/-- **Planting keeps a graph sound.** -/
theorem Planted.sound (hg : Planted b g) (hb : b.Sound) : g.Sound := by
  classical
  obtain ⟨rank, hgraded⟩ := hb.exists_graded
  have hpresent : ∀ {x y}, g.Present x → g.Link x y → g.Present y := by
    intro x y hx hlink
    rcases hx.old_or_new (b := b) with hold | hnew
    · exact (hb.present hold ((hold.link_iff hg.grown).mp hlink)).grown hg.grown
    · exact (hg.new_of_link hnew hlink).present
  refine ⟨hpresent, ?_, fun {i o} ho => ?_⟩
  · -- Old nodes are linked to old nodes and new nodes to new ones, so each kind can keep its own ranks.
    refine acyclic_of_present (fun x => if New b g x then g.height x else rank x) hpresent fun {x y} hx hlink => ?_
    rcases hx.old_or_new (b := b) with hold | hnew
    · have hlink := (hold.link_iff hg.grown).mp hlink
      rw [if_neg hold.not_new, if_neg (hb.present hold hlink).not_new]
      exact hgraded.lt hold hlink
    · rw [if_pos hnew, if_pos (hg.new_of_link hnew hlink)]
      exact (hg.ranked hnew).height_lt .refl hlink
  · have hi : g.Present (.item i) := lt_of_object? ho
    rcases hi.old_or_new (b := b) with hold | hnew
    · have ho' : b.object? i = some o := object?_congr (hg.grown.item_eq i hold) ▸ ho
      refine (hb.filed ho').congr fun p hp => ?_
      have hpb : b.Present (.property p) := hb.present hold (link_item_property_iff.mpr ⟨o, ho', hp⟩)
      rw [propertyName, propertyName, hg.grown.property_eq p hpb]
    · exact hg.filed hnew ho

end Schemata.Graph
