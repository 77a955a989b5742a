import Schemata.Graph.Basic

/-!
# Adding properties to an object

Properties are added to an object strictly, where no different property may have the name already, or
leniently, where the object's own properties win. Either way a property that the object wants to be required
is replaced by a copy that is, if it could be null; nobody else who holds the property sees the change.
-/

namespace Schemata.Graph

/-- Make the item of a property present. An item that could be null is replaced by a copy, so that other
holders of it are left alone. There is no result, and nothing to do, if the item could not be null. -/
def requireProperty? (g : Graph) (p : PropertyId) : Option Graph :=
  let x := g.property p
  if (g.item x.item).isNull then
    let (g, i) := g.addItem (g.item x.item).required
    some (g.setProperty p { x with item := i })
  else
    none

/-- A copy of a property with its item present, if the item could be null. -/
def requiredCopy? (g : Graph) (p : PropertyId) : Option (Graph × PropertyId) :=
  let (g, copy) := g.copyProperty p
  (g.requireProperty? copy).map fun g => (g, copy)

/-- Replace the candidates that must be required and can be null by required copies. -/
def requireAll (g : Graph) (required : List String) (filed : Registry PropertyId) :
    List PropertyId → Graph × Registry PropertyId
  | [] => (g, filed)
  | p :: rest =>
    if required.contains (g.propertyName p) then
      match g.requiredCopy? p with
      | some (g, copy) => g.requireAll required (filed.insert g.propertyName copy) rest
      | none => g.requireAll required filed rest
    else
      g.requireAll required filed rest

/-- Add properties to the object that an item is. Strictly, a name that a different property has is refused;
leniently, the object's own properties win. -/
def addProperties (g : Graph) (i : ItemId) (added : Registry PropertyId) (strict : Bool) :
    Except ItemError Graph :=
  match g.item i with
  | .object o =>
    if added.isEmpty then .ok g
    else do
      let (merged, candidates) ←
        if strict then do
          let merged ←
            (o.properties.registerAll g.propertyName added).mapError (.ofDuplicateProperty o.typeName)
          pure (merged, added.elements)
        else
          let merged := added.insertAll g.propertyName o.properties
          pure (merged, merged.elements)
      let (g, properties) := g.requireAll o.required merged candidates
      return g.setItem i (.object { o with properties })
  | item => .error (.cannotAddProperties item.describe)

end Schemata.Graph
