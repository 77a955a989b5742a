import Schemata.Shape

/-!
# The graph of items and properties

Items and properties are nodes of one graph and are referred to by identity, so that a node can be held in
several places. A property holds one item; an array holds one item; an object holds properties by name.
Nodes are only ever added and updated, never removed.

All walks over the graph (see the modules beside this one) follow these links. They carry the number of items
as a bound on the depth, which no path of an acyclic graph exceeds.
-/

namespace Schemata

/-- The identity of an item. -/
structure ItemId where
  /-- The position of the item in its graph. -/
  index : Nat
deriving DecidableEq, Repr, Inhabited

/-- The identity of a property. -/
structure PropertyId where
  /-- The position of the property in its graph. -/
  index : Nat
deriving DecidableEq, Repr, Inhabited

/-- An object: named properties under a type name. -/
structure ObjectNode where
  /-- The path of names down to the object, joined. -/
  typeName : String
  /-- The properties by name. -/
  properties : Registry PropertyId := ∅
  /-- The names that inherited properties must be required under, ascending. -/
  required : List String := []
deriving DecidableEq, Repr, Inhabited

/-- Whether an object has no properties. -/
def ObjectNode.isEmpty (o : ObjectNode) : Bool :=
  o.properties.isEmpty

/-- An item. -/
inductive Item where
  /-- A leaf. -/
  | scalar (s : Scalar)
  /-- A sequence of values of one element item. -/
  | array (element : ItemId)
  /-- A record. -/
  | object (o : ObjectNode)
deriving DecidableEq, Repr, Inhabited

namespace Item

/-- Whether the item is an object. -/
def isObject : Item → Bool
  | .object _ => true
  | _ => false

/-- Whether the item can be null; only scalars can. -/
def isNull : Item → Bool
  | .scalar s => s.isNull
  | _ => false

/-- The item with a value present; only scalars change. -/
def required : Item → Item
  | .scalar s => .scalar { s with required := true }
  | item => item

/-- The text that tells the item from others, its children left aside. -/
def fingerprint : Item → String
  | .scalar s => s.fingerprint
  | .array _ => "#[]"
  | .object _ => "#*"

/-- What kind of item it is, in words. -/
def describe : Item → String
  | .scalar _ => "a plain item"
  | .array _ => "an array"
  | .object _ => "an object"

end Item

/-- A property: a field and the item it holds. -/
structure Property extends Field where
  /-- The item it holds. -/
  item : ItemId
deriving DecidableEq, Repr, Inhabited

/-- Items and properties by identity. -/
structure Graph where
  /-- The items by position. -/
  items : Array Item := #[]
  /-- The properties by position. -/
  properties : Array Property := #[]
deriving DecidableEq, Repr, Inhabited

namespace Graph

/-! ### Reading -/

/-- An item of the graph. -/
def item (g : Graph) (i : ItemId) : Item :=
  g.items.getD i.index default

/-- A property of the graph. -/
def property (g : Graph) (p : PropertyId) : Property :=
  g.properties.getD p.index default

/-- The item that a property holds. -/
def held (g : Graph) (p : PropertyId) : Item :=
  g.item (g.property p).item

/-- The name of a property. -/
def propertyName (g : Graph) (p : PropertyId) : String :=
  (g.property p).name

/-- The object that an item is, if it is one. -/
def object? (g : Graph) (i : ItemId) : Option ObjectNode :=
  match g.item i with
  | .object o => some o
  | _ => none

/-- The type name of an object. -/
def typeName (g : Graph) (i : ItemId) : String :=
  ((g.object? i).map ObjectNode.typeName).getD ""

/-- The most items that a path without repetition can pass. -/
def depth (g : Graph) : Nat :=
  g.items.size

/-- Whether an item is an object with properties, or an array of such items. -/
def containsObjectWithin (g : Graph) : Nat → ItemId → Bool
  | 0, _ => false
  | depth + 1, i =>
    match g.item i with
    | .scalar _ => false
    | .array element => g.containsObjectWithin depth element
    | .object o => !o.isEmpty

/-- Whether an item is an object with properties, or an array of such items. -/
def containsObject (g : Graph) (i : ItemId) : Bool :=
  g.containsObjectWithin g.depth i

/-! ### Adding and updating -/

/-- Add an item. -/
def addItem (g : Graph) (x : Item) : Graph × ItemId :=
  ({ g with items := g.items.push x }, ⟨g.items.size⟩)

/-- Add a property. -/
def addProperty (g : Graph) (x : Property) : Graph × PropertyId :=
  ({ g with properties := g.properties.push x }, ⟨g.properties.size⟩)

/-- Update an item. -/
def setItem (g : Graph) (i : ItemId) (x : Item) : Graph :=
  { g with items := g.items.setIfInBounds i.index x }

/-- Update a property. -/
def setProperty (g : Graph) (p : PropertyId) (x : Property) : Graph :=
  { g with properties := g.properties.setIfInBounds p.index x }

/-- Add an item equal to one that is present; their children are the same nodes. -/
def copyItem (g : Graph) (i : ItemId) : Graph × ItemId :=
  g.addItem (g.item i)

/-- Add a property equal to one that is present; both hold the same item. -/
def copyProperty (g : Graph) (p : PropertyId) : Graph × PropertyId :=
  g.addProperty (g.property p)

/-! ### Planting definition trees -/

mutual

/-- Add the nodes of a definition tree, children first. -/
def plant (g : Graph) : Shape → Graph × ItemId
  | .scalar s => g.addItem (.scalar s)
  | .array element =>
    let (g, e) := g.plant element
    g.addItem (.array e)
  | .object typeName required fields =>
    let (g, properties) := g.plantFields ∅ fields
    g.addItem (.object { typeName, properties, required })

/-- Add properties with the trees that they hold; of two with one name the later stays. -/
def plantFields (g : Graph) (filed : Registry PropertyId) : List (Field × Shape) → Graph × Registry PropertyId
  | [] => (g, filed)
  | (field, shape) :: rest =>
    let (g, i) := g.plant shape
    let (g, p) := g.addProperty { toField := field, item := i }
    g.plantFields (filed.put field.name p) rest

end

/-- Add a property with the tree that it holds. -/
def plantProperty (g : Graph) (field : Field) (shape : Shape) : Graph × PropertyId :=
  let (g, i) := g.plant shape
  g.addProperty { toField := field, item := i }

/-- Read the definition of the property `name` and add its nodes. -/
def parseProperty (g : Graph) (ctx : Shape.Context) (name : String) (data : Entries) :
    Except ItemError (Graph × PropertyId) :=
  (Shape.parseField ctx name data).map fun (field, shape) => g.plantProperty field shape

end Graph

end Schemata
