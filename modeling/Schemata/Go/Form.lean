import Schemata.Graph.Basic

/-!
# What is written about a graph

The source text for an object depends on little of the graph around it: on the object's type name, and for each
property on its name, its placement, whether it has a default, and the *form* of its item. A form is the item
with its arrays opened down to a scalar or an object; of an object only the type name matters, and whether it
has properties.

This module reads forms, members and records off a graph, and all of the text in the modules beside it is
written from them alone.
-/

namespace Schemata.Go

/-- The name that an object is written under. -/
structure RecordName where
  /-- The type name of the object. -/
  typeName : String
  /-- Whether the object has no properties, so that no type is written for it. -/
  isEmpty : Bool
deriving DecidableEq, Repr, Inhabited

/-- An item as far as its source text depends on it. -/
inductive Form where
  /-- A scalar. -/
  | scalar (s : Scalar)
  /-- A sequence of values of one form. -/
  | list (element : Form)
  /-- An object. -/
  | record (name : RecordName)
deriving DecidableEq, Repr, Inhabited

/-- A property as far as its source text depends on it. -/
structure Member where
  /-- The name of the property. -/
  name : String
  /-- Where the property is stored. -/
  placement : Placement
  /-- Whether a default that is not the null was given. -/
  hasDefault : Bool
  /-- The form of the item that the property holds. -/
  form : Form
deriving DecidableEq, Repr, Inhabited

/-- An object as far as its source text depends on it. -/
structure Record where
  /-- The type name of the object. -/
  typeName : String
  /-- The properties by name. -/
  members : List Member
deriving DecidableEq, Repr, Inhabited

/-- The name of a record. -/
def Record.name (r : Record) : RecordName :=
  ⟨r.typeName, r.members.isEmpty⟩

/-- Whether a record has no members. -/
def Record.isEmpty (r : Record) : Bool :=
  r.members.isEmpty

end Schemata.Go

namespace Schemata.Graph

/-- The name that an object is written under. -/
def recordName (o : ObjectNode) : Go.RecordName :=
  ⟨o.typeName, o.isEmpty⟩

/-- The form of an item, with arrays opened to a depth. -/
def formWithin (g : Graph) : Nat → ItemId → Go.Form
  | 0, _ => default
  | depth + 1, i =>
    match g.item i with
    | .scalar s => .scalar s
    | .array element => .list (g.formWithin depth element)
    | .object o => .record (recordName o)

/-- The form of an item. -/
def form (g : Graph) (i : ItemId) : Go.Form :=
  g.formWithin g.depth i

/-- A property as it is written. -/
def member (g : Graph) (p : PropertyId) : Go.Member :=
  let x := g.property p
  { name := x.name, placement := x.placement, hasDefault := x.hasDefault, form := g.form x.item }

/-- An object as it is written. -/
def record (g : Graph) (o : ObjectNode) : Go.Record :=
  { typeName := o.typeName, members := o.properties.elements.map g.member }

end Schemata.Graph
