import Schemata.Graph.Dedup
import Schemata.Graph.Merge
import Schemata.Graph.Slice
import Schemata.SchemaError

/-!
# Schemas

A schema has an identifier, possibly a parent, a list of schemas that it extends, and a body that defines its root
object. An empty body defines an object without properties. A schema with a parent gets one more property, which
refers to the parent, and the equal subtrees of a schema are shared once it is complete.

`Schema.join` adds the properties of a schema's bases to its root object; its own properties win.
-/

namespace Schemata

/-- A schema and the property that holds its root object. -/
structure Schema where
  /-- The identifier. -/
  id : String
  /-- The identifier of the parent. -/
  parent : Option String
  /-- The identifiers of the schemas that it extends. -/
  bases : List String
  /-- The property that holds the root object. -/
  root : PropertyId
deriving DecidableEq, Repr, Inhabited

namespace Schema

/-- The steps up from a shared subtree to the ancestor that it shares: to the object that holds both of the
properties in question. -/
def sharingLevel : Nat := 2

/-- The schemas that a schema extends; without a list it extends none. -/
def basesOf (id : String) (data : Entries) : Except SchemaError (List String) :=
  match data.get? "extends" with
  | none => .ok []
  | some raw =>
    match raw.textList? with
    | some bases => .ok bases
    | none => .error (.badBaseList id)

/-- A definition that gives a type only. -/
def definition (type : String) : Entries :=
  [(.text "type", .text type)]

/-- The definition in the body of a schema; an empty body defines an object. -/
def bodyOf (id : String) (data : Entries) : Except SchemaError Entries :=
  match (data.get? "schema").bind Document.entries? with
  | none => .error (.schemaWithoutBody id)
  | some body => .ok (if body.isEmpty then definition "object" else body)

/-- The name of the property that refers to a parent. -/
def parentProperty (parent : String) : String :=
  Naming.join parent "id"

/-- What surrounds the root property of a schema: nothing, and it must be present. -/
def rootContext : Shape.Context :=
  { required := true }

/-- Add the property that refers to the parent. -/
def addParent (g : Graph) (id : String) (root : PropertyId) : Option String → Except SchemaError Graph
  | none => .ok g
  | some parent => do
    let (g, p) ←
      (g.parseProperty rootContext (parentProperty parent) (definition "string")).mapError (.invalid id)
    let added := Registry.ofList g.propertyName [p]
    match g.addProperties (g.property root).item added true with
    | .ok g => return g
    | .error (.duplicatePropertyName ..) => .error (.parentCollision id parent)
    | .error e => .error (.invalid id e)

/-- Read a schema and add its nodes; nothing is shared yet. -/
def read (g : Graph) (data : Entries) : Except SchemaError (Graph × Schema) := do
  let some id := (data.get? "id").bind Document.text? | .error .schemaWithoutId
  let parent := (data.get? "parent").bind Document.text?
  let bases ← basesOf id data
  let body ← bodyOf id data
  let (g, root) ← (g.parseProperty rootContext id body).mapError (.invalid id)
  if !(g.held root).isObject then .error (.rootNotObject id)
  let g ← addParent g id root parent
  return (g, { id, parent, bases, root })

/-- Read a schema, add its nodes and share its equal subtrees. -/
def parse (g : Graph) (data : Entries) : Except SchemaError (Graph × Schema) := do
  let (g, s) ← read g data
  return (g.dedup s.root sharingLevel, s)

/-- The objects of a slice of a schema, by type name. -/
def objects (g : Graph) (s : Schema) (limit offset : Int) : Except SchemaError (Registry ItemId) :=
  (g.objects s.root limit offset).mapError (.invalid s.id)

/-- The properties of a schema's root object. -/
def ownProperties (g : Graph) (s : Schema) : Except SchemaError (Registry PropertyId) :=
  (g.slice s.root 2 1).mapError (.invalid s.id)

/-- The properties that a schema inherits from its bases. Different properties with one name are refused. -/
def inherited (g : Graph) (s : Schema) (bases : List Schema) : Except SchemaError (Registry PropertyId) :=
  bases.foldlM
    (fun found base => do
      let properties ← base.ownProperties g
      (found.registerAll g.propertyName properties).mapError (.ofAmbiguousName s.id))
    ∅

/-- Add what a schema inherits from its bases to its root object. The number of inherited properties is returned
as well. -/
def join (g : Graph) (s : Schema) (bases : List Schema) : Except SchemaError (Graph × Nat) := do
  let added ← s.inherited g bases
  let g ← (g.addProperties (g.property s.root).item added false).mapError (.invalid s.id)
  return (g, added.size)

end Schema

end Schemata
