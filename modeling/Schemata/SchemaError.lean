import Schemata.ItemError

/-!
# What can be wrong with schemas

The causes for which a schema or a set of schemas is refused, and their wording.
-/

namespace Schemata

/-- Why schemas are refused. -/
inductive SchemaError where
  /-- A schema has no identifier. -/
  | schemaWithoutId
  /-- The bases of a schema are no list of texts. -/
  | badBaseList (schema : String)
  /-- The body of a schema is no mapping. -/
  | schemaWithoutBody (schema : String)
  /-- The body of a schema defines no object. -/
  | rootNotObject (schema : String)
  /-- A schema defines the property that refers to its parent itself. -/
  | parentCollision (schema parent : String)
  /-- Two schemas have one name. -/
  | duplicateSchemaName (name : String)
  /-- A schema extends a schema that is not given. -/
  | unknownBase (schema base : String)
  /-- A schema extends itself, directly or through others. -/
  | cyclicInheritance (schema : String)
  /-- Two bases of a schema have different properties of one name. -/
  | ambiguousInheritance (schema name : String)
  /-- A definition inside a schema is refused. -/
  | invalid (schema : String) (source : ItemError)
deriving Repr

namespace SchemaError

/-- What an error says. -/
def message : SchemaError → String
  | .schemaWithoutId => "schema does not have an id"
  | .badBaseList schema => "schema " ++ schema ++ ": extends should be a list of strings"
  | .schemaWithoutBody schema => "schema " ++ schema ++ " should have a map as a body"
  | .rootNotObject schema => "schema " ++ schema ++ " should be an object"
  | .parentCollision schema parent =>
    "schema " ++ schema ++ " cannot add property " ++ parent ++ "_id: property already exists"
  | .duplicateSchemaName name => "multiple schemas with the same name: " ++ name
  | .unknownBase schema base => "schema " ++ schema ++ " extends unknown schema " ++ base
  | .cyclicInheritance schema => "schema " ++ schema ++ " is part of an inheritance cycle"
  | .ambiguousInheritance schema name =>
    "schema " ++ schema ++ " inherits property " ++ name ++ " from multiple bases"
  | .invalid schema source => "invalid schema " ++ schema ++ ": " ++ source.message

/-- Two schemas with one name. -/
def ofDuplicateSchema (e : DuplicateName) : SchemaError :=
  .duplicateSchemaName e.name

/-- Two properties with one name among the bases of a schema. -/
def ofAmbiguousName (schema : String) (e : DuplicateName) : SchemaError :=
  .ambiguousInheritance schema e.name

end SchemaError

end Schemata
