import Schemata.Graph.Basic
import Schemata.Sharing

/-!
# Sharing equal items

Equal subtrees of a graph are shared as `Schemata.Sharing` plans it, on nodes that are properties and items in
turn. When a property comes to hold another property's item, the objects below that item are renamed through
the property's mark, so that the name of a shared object says `common` in place of either holder's name.
-/

namespace Schemata

/-- A node of the graph, as sharing sees it. -/
inductive Node where
  /-- A property, whose only child is its item. -/
  | property (p : PropertyId)
  /-- An item, whose children are its element or its properties. -/
  | item (i : ItemId)
deriving DecidableEq, Repr

namespace Graph

/-! ### Renaming -/

/-- Move the mark of a property along with a rename around it. -/
def followMark (g : Graph) (p : PropertyId) (m : Mark) : Graph :=
  let x := g.property p
  g.setProperty p { x with mark := x.mark.follow m }

/-- Rename the objects below an item through a mark, and move the marks of the properties below each object
that changes its name. A name that does not change ends the walk. -/
def renameWithin : Nat → Graph → ItemId → Mark → Graph × Mark
  | 0, g, _, m => (g, m)
  | depth + 1, g, i, m =>
    match g.item i with
    | .scalar _ => (g, m)
    | .array element => renameWithin depth g element m
    | .object o =>
      match m.rename? o.typeName with
      | none => (g, m)
      | some (m, name) =>
        o.properties.elements.foldl
          (fun (g, m) p => renameWithin depth (g.followMark p m) (g.property p).item m)
          (g.setItem i (.object { o with typeName := name }), m)

/-- Rename the objects below an item through a mark. -/
def rename (g : Graph) (i : ItemId) (m : Mark) : Graph × Mark :=
  renameWithin g.depth g i m

/-- Follow a rename around a property: move its mark, then rename what it holds. -/
def renameProperty (g : Graph) (p : PropertyId) (m : Mark) : Graph × Mark :=
  (g.followMark p m).rename (g.property p).item m

/-! ### Redirections -/

/-- Let a property hold `source` if it holds `destination`, and rename `source` through its mark. -/
def replaceItem (g : Graph) (p : PropertyId) (source destination : ItemId) : Graph :=
  let x := g.property p
  if x.item = destination then
    let (g, m) := (g.setProperty p { x with item := source }).rename source x.mark
    g.setProperty p { g.property p with mark := m }
  else g

/-- Let an array hold `source` if it holds `destination`. -/
def replaceElement (g : Graph) (i source destination : ItemId) : Graph :=
  match g.item i with
  | .array element => if element = destination then g.setItem i (.array source) else g
  | _ => g

/-- Let an object hold `source` in place of the property with the name of `destination`. -/
def replaceProperty (g : Graph) (i : ItemId) (source destination : PropertyId) : Graph :=
  match g.item i with
  | .object o =>
    if o.properties.contains (g.propertyName destination) then
      let properties := (o.properties.erase (g.propertyName destination)).insert g.propertyName source
      g.setItem i (.object { o with properties })
    else g
  | _ => g

/-- Carry a redirection out. Nodes that cannot hold one another are left alone. -/
def redirect (g : Graph) : Sharing.Redirection Node → Graph
  | ⟨.property p, .item source, .item destination⟩ => g.replaceItem p source destination
  | ⟨.item i, .item source, .item destination⟩ => g.replaceElement i source destination
  | ⟨.item i, .property source, .property destination⟩ => g.replaceProperty i source destination
  | _ => g

/-- The text that tells a node from others: the name of a property, the fingerprint of an item. -/
def fingerprint (g : Graph) : Node → String
  | .property p => g.propertyName p
  | .item i => (g.item i).fingerprint

/-- The children of a node, properties by name. -/
def children (g : Graph) : Node → List Node
  | .property p => [.item (g.property p).item]
  | .item i =>
    match g.item i with
    | .scalar _ => []
    | .array element => [.item element]
    | .object o => o.properties.elements.map .property

/-- The graph as one to share subtrees in. -/
def linked : Sharing.Linked Graph Node where
  fingerprint := fingerprint
  children := children
  bound g := g.items.size + g.properties.size
  redirect := redirect

/-- Share the equal subtrees below a property that have a common ancestor `level` steps up. -/
def dedup (g : Graph) (p : PropertyId) (level : Nat) : Graph :=
  linked.share g (.property p) level

end Graph

end Schemata
