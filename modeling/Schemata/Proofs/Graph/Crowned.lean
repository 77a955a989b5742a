import Schemata.Proofs.Graph.Confined
import Schemata.Proofs.Graph.Redirecting

/-!
# Root objects stay on top

The object that a root property holds stands above everything else that is read with it: nothing but the root property
leads to it. Sharing keeps it there (`crowned_dedup`). A node two steps below another one is never the root property or
its object, so neither is ever put in the place of something else, and no rename comes to the object. What sharing can do
to the object is to give it other properties from below.
-/

namespace Schemata.Graph

open Sharing (Redirection)

variable {g h : Graph} {root : PropertyId} {crown : ItemId} {name : String} {S : Set Node} {x : Node}

/-- A root property holds an object that stands above the region `S`: the object is named `name` and has its properties
in `S`, and nothing leads out of `S`. -/
structure Crowned (S : Set Node) (root : PropertyId) (crown : ItemId) (name : String) (h : Graph) : Prop where
  root_notMem : .property root ∉ S
  crown_notMem : .item crown ∉ S
  closed : ∀ {x y : Node}, x ∈ S → h.Link x y → y ∈ S
  filed : ∀ {i : ItemId} {o : ObjectNode}, h.object? i = some o → o.properties.Filed h.propertyName
  root_item : (h.property root).item = crown
  object : ∃ o, h.object? crown = some o ∧ o.typeName = name
  mem_of_link : ∀ {x : Node}, h.Link (.item crown) x → x ∈ S

namespace Crowned

variable (hh : Crowned S root crown name h)

include hh

/-- What a root property leads to: itself, its object, and what is below. -/
theorem of_leads (hx : h.Leads (.property root) x) : x = .property root ∨ x = .item crown ∨ x ∈ S := by
  induction hx with
  | refl => exact .inl rfl
  | tail _ hlink ih =>
    rcases ih with rfl | rfl | hmem
    · rw [link_property_iff, hh.root_item] at hlink
      exact .inr (.inl hlink)
    · exact .inr (.inr (hh.mem_of_link hlink))
    · exact .inr (.inr (hh.closed hmem hlink))

/-- A redirection of a node below the object. -/
theorem redirect_below {r : Redirection Node} (hholder : r.holder ∈ S) (hsource : r.source ∈ S) :
    Crowned S root crown name (h.redirect r) := by
  have hconfined : Confined root S h (h.redirect r) :=
    (confined_refl hh.closed fun _ => hh.filed).redirect hholder (fun heq => hh.root_notMem (heq ▸ hholder)) hsource
  have hcrown : (h.redirect r).item crown = h.item crown := hconfined.item_eq hh.crown_notMem
  obtain ⟨o, ho, hname⟩ := hh.object
  refine ⟨hh.root_notMem, hh.crown_notMem, hconfined.closed, filed_redirect hh.filed,
    hconfined.root_item.trans hh.root_item, ⟨o, (object?_congr hcrown).trans ho, hname⟩, fun hlink => ?_⟩
  rw [Link, children_item, hcrown, ← children_item] at hlink
  exact hh.mem_of_link hlink

/-- A redirection of the object: it may get another property from below. -/
theorem redirect_crown {r : Redirection Node} (hholder : r.holder = .item crown) (hsource : r.source ∈ S) :
    Crowned S root crown name (h.redirect r) := by
  have hchildren : ∀ {x y}, y ∈ (h.redirect r).children x → y ∈ h.children x ∨ (x = .item crown ∧ y ∈ S) := by
    intro x y hy
    rcases mem_children_redirect hy with hy | ⟨hx, rfl⟩
    · exact .inl hy
    · exact .inr ⟨hx.trans hholder, hsource⟩
  obtain ⟨o, ho, hname⟩ := hh.object
  -- Neither properties nor names change.
  have hsame : (h.redirect r).property = h.property ∧ ∃ o, (h.redirect r).object? crown = some o ∧ o.typeName = name := by
    rcases h.redirect_cases r with heq | ⟨p, source, hr⟩ | ⟨i, source, destination, hr⟩ |
      ⟨i, c, source, destination, replaced, hr⟩
    · rw [heq]
      exact ⟨rfl, o, ho, hname⟩
    · exact nomatch hholder.symm.trans hr.holder_eq
    · obtain rfl := Node.item.inj (hholder.symm.trans hr.holder_eq)
      exact nomatch (object?_eq_some_iff.mp ho).symm.trans hr.array
    · obtain rfl := Node.item.inj (hholder.symm.trans hr.holder_eq)
      obtain rfl := Option.some.inj (ho.symm.trans hr.object)
      rw [hr.graph_eq]
      exact ⟨rfl, _, object?_eq_some_iff.mpr (item_setItem_self _ (lt_of_object? ho)), hname⟩
  refine ⟨hh.root_notMem, hh.crown_notMem, fun {x y} hx hlink => ?_, filed_redirect hh.filed, ?_, hsame.2,
    fun hlink => ?_⟩
  · exact (hchildren hlink).elim (hh.closed hx) And.right
  · rw [hsame.1, hh.root_item]
  · exact (hchildren hlink).elim hh.mem_of_link And.right

end Crowned

/-- **A root object stays on top** when the equal subtrees below its property are shared. -/
theorem crowned_dedup (hg : Crowned S root crown name g) :
    Crowned S root crown name (g.dedup root Schema.sharingLevel) := by
  refine List.foldlRecOn _ _ hg fun h hh r hr => ?_
  obtain ⟨⟨x, hx, hholder⟩, y, z, hy, hz, hsource⟩ := Sharing.Linked.reaches_of_mem_plan hr
  have hchild : ∀ {x y}, g.Leads (.property root) x → g.Link x y → y = .item crown ∨ y ∈ S := by
    intro x y hx hlink
    rcases hg.of_leads hx with rfl | rfl | hmem
    · rw [link_property_iff, hg.root_item] at hlink
      exact .inl hlink
    · exact .inr (hg.mem_of_link hlink)
    · exact .inr (hg.closed hmem hlink)
  have hbelow : r.source ∈ S := by
    rcases hchild hy hz with rfl | hmem
    · exact hg.mem_of_link hsource
    · exact hg.closed hmem hsource
  rcases hchild hx hholder with hcrown | hmem
  · exact hh.redirect_crown hcrown hbelow
  · exact hh.redirect_below hmem hbelow

end Schemata.Graph
