import Schemata.Registry
import Schemata.Text.Quoted
import Schemata.TypeClass

/-!
# What can be wrong with a definition

The causes for which a definition is refused, a merge is refused, or a collection fails. Each names the path
of the item or the type name of the object that it concerns; `ItemError.message` has all of the wording.
-/

namespace Schemata

/-- A short description of a value. Tags are not looked through. -/
def Document.describe : Document → String
  | .null => "null"
  | .bool _ => "bool"
  | .int _ | .float _ => "number"
  | .text s => "string " ++ Text.quoted s
  | .list items => "list of " ++ items.length.repr ++ " elements"
  | .mapping _ => "map"
  | .tagged tag _ => "tagged value " ++ tagText tag

/-- Why a definition, a merge or a collection is refused. -/
inductive ItemError where
  /-- The type of an item is neither a token nor a list that has one. -/
  | unsupportedType (path : String) (found : Document)
  /-- A definition has no type. -/
  | missingType (path : String)
  /-- An array has no mapping under `items`. -/
  | arrayWithoutItems (path : String)
  /-- The items of an array have no type. -/
  | itemsWithoutType (path : String)
  /-- The properties of an object are no mapping. -/
  | badPropertiesShape (object : String)
  /-- A property of an object is not named by a text. -/
  | badPropertyName (object : String)
  /-- A property of an object is not defined by a mapping. -/
  | badPropertyDefinition (object property : String)
  /-- The required names of an object are no list of texts. -/
  | badRequired (object : String)
  /-- Two objects with one type name meet. -/
  | duplicateObjectType (object name : String)
  /-- Two properties with one name meet. -/
  | duplicatePropertyName (object name : String)
  /-- Properties are added to something that is no object. -/
  | cannotAddProperties (item : String)
deriving Repr

namespace ItemError

/-- What an error says. -/
def message : ItemError → String
  | .unsupportedType path found => "item " ++ path ++ ": unsupported type: " ++ found.describe
  | .missingType path => "item " ++ path ++ " does not have a type"
  | .arrayWithoutItems path => "array " ++ path ++ " does not have items"
  | .itemsWithoutType path => "items of array " ++ path ++ " do not have a type"
  | .badPropertiesShape object => "object " ++ object ++ " has invalid properties"
  | .badPropertyName object => "object " ++ object ++ " has property which name is not a string"
  | .badPropertyDefinition object property => "object " ++ object ++ " has invalid property " ++ property
  | .badRequired object => "object " ++ object ++ ": required should be a list of strings"
  | .duplicateObjectType object name =>
    "multiple objects with the same type " ++ name ++ " at object " ++ object
  | .duplicatePropertyName object name =>
    "multiple properties with the same name " ++ name ++ " at " ++ object
  | .cannotAddProperties item => "cannot add properties to " ++ item

/-- Two objects that meet at `object`. -/
def ofDuplicateObject (object : String) (e : DuplicateName) : ItemError :=
  .duplicateObjectType object e.name

/-- Two properties that meet at `object`. -/
def ofDuplicateProperty (object : String) (e : DuplicateName) : ItemError :=
  .duplicatePropertyName object e.name

end ItemError

end Schemata
