import Schemata.Graph.Basic

/-!
# Slices of a graph by depth

A slice is what lies below a node from depth `offset` on and above depth `limit`; a negative limit is no limit.
Objects are counted along a path of objects, properties along a path of properties, and arrays count for
neither. A slice is filed by name: meeting one node twice is fine, meeting two nodes with one name is not.

A walk is bounded by the number of levels that it may still go down. Without a limit that is the number of nodes,
which no path of an acyclic graph exceeds. With a limit it is the limit, so that a slice is exact in a graph with
cycles as well.
-/

namespace Schemata.Graph

/-- The levels that a walk may go down: the limit, or all of the `total` nodes if there is no limit. -/
def levels (limit : Int) (total : Nat) : Nat :=
  if limit < 0 then total else limit.toNat

/-- The item inside the arrays around an item, for at most a number of arrays. -/
def innermostWithin (g : Graph) : Nat → ItemId → ItemId
  | 0, i => i
  | depth + 1, i =>
    match g.item i with
    | .array element => g.innermostWithin depth element
    | _ => i

/-- The item inside the arrays around an item. -/
def innermost (g : Graph) (i : ItemId) : ItemId :=
  g.innermostWithin g.depth i

/-- The objects at or below an item down to a number of levels, by type name. -/
def objectsWithin (g : Graph) : Nat → ItemId → (offset : Int) → Except ItemError (Registry ItemId)
  | 0, _, _ => .ok ∅
  | levels + 1, i, offset =>
    match g.object? (g.innermost i) with
    | none => .ok ∅
    | some o =>
      o.properties.elements.foldlM
        (fun found p => do
          let nested ← g.objectsWithin levels (g.property p).item (offset - 1)
          (found.registerAll g.typeName nested).mapError (.ofDuplicateObject o.typeName))
        (if offset ≤ 0 then (∅ : Registry ItemId).insert g.typeName (g.innermost i) else ∅)

/-- The objects of the slice below a property, by type name. -/
def objects (g : Graph) (p : PropertyId) (limit offset : Int) : Except ItemError (Registry ItemId) :=
  g.objectsWithin (levels limit g.items.size) (g.property p).item offset

/-- The properties at or below a property down to a number of levels, by name. -/
def propertiesWithin (g : Graph) : Nat → PropertyId → (offset : Int) → Except ItemError (Registry PropertyId)
  | 0, _, _ => .ok ∅
  | levels + 1, p, offset => do
    let nested ←
      match g.object? (g.innermost (g.property p).item) with
      | none => pure ∅
      | some o =>
        o.properties.elements.foldlM
          (fun found q => do
            let below ← g.propertiesWithin levels q (offset - 1)
            (found.registerAll g.propertyName below).mapError (.ofDuplicateProperty o.typeName))
          (∅ : Registry PropertyId)
    if offset ≤ 0 then
      (nested.register g.propertyName p).mapError (.ofDuplicateProperty (g.propertyName p))
    else
      return nested

/-- The properties of the slice that starts at a property, by name. -/
def slice (g : Graph) (p : PropertyId) (limit offset : Int) : Except ItemError (Registry PropertyId) :=
  g.propertiesWithin (levels limit g.properties.size) p offset

end Schemata.Graph
