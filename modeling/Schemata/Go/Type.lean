import Schemata.Go.Form
import Schemata.Naming

/-!
# Go types of forms

Every form has a concrete type, which structs are made of, and an interface type, which accessors show. The
two differ for objects with properties only. A scalar that can be null is stored in a wrapper of the runtime
package; a value of any type needs none.
-/

namespace Schemata.Go

/-- The type of all values. -/
def any : String := "interface\x7b\x7d"

/-- The package that the wrappers of nullable scalars are in. -/
def runtime : String := "goext"

/-- The type of a scalar kind. -/
def scalarType : ScalarKind → String
  | .string => "string"
  | .int => "int"
  | .float => "float64"
  | .bool => "bool"
  | .abstract => any
  | .other token => token

/-- A text without a final `64`. -/
def withoutWidth (name : String) : String :=
  match name.toList.reverse with
  | '4' :: '6' :: rest => String.ofList rest.reverse
  | _ => name

/-- The name by which the wrapper of a scalar kind is called. Values of any type have no wrapper. -/
def wrapperName : ScalarKind → Option String
  | .abstract => none
  | kind => some (Naming.goName (withoutWidth (scalarType kind)) "")

namespace RecordName

/-- The Go name of an object. -/
def name (r : RecordName) (suffix : String) : String :=
  Naming.goName r.typeName suffix

/-- The concrete type of an object. -/
def goType (r : RecordName) (suffix : String) : String :=
  if r.isEmpty then any else "*" ++ r.name suffix

/-- The interface type of an object. -/
def interfaceType (r : RecordName) (suffix : String) : String :=
  if r.isEmpty then any else "I" ++ r.name suffix

/-- The value that an object starts with. -/
def defaultValue (r : RecordName) (suffix : String) : String :=
  if r.isEmpty then "map[string]interface\x7b\x7d\x7b\x7d" else "Make" ++ r.name suffix ++ "()"

end RecordName

namespace Form

/-- Whether a form is an object with properties, or a sequence of such forms. -/
def containsObject : Form → Bool
  | .scalar _ => false
  | .list element => element.containsObject
  | .record name => !name.isEmpty

/-- Whether a form can be null. -/
def isNull : Form → Bool
  | .scalar s => s.isNull
  | _ => false

/-- The concrete type of a form. -/
def goType (suffix : String) : Form → String
  | .scalar s => scalarType s.kind
  | .list element => "[]" ++ element.goType suffix
  | .record name => name.goType suffix

/-- The interface type of a form. -/
def interfaceType (suffix : String) : Form → String
  | .scalar s => scalarType s.kind
  | .list element => "[]" ++ element.interfaceType suffix
  | .record name => name.interfaceType suffix

/-- The wrapper of a form that can be null. -/
def wrapper? : Form → Option String
  | .scalar s => if s.isNull then wrapperName s.kind else none
  | _ => none

/-- The type of a struct field. -/
def fieldType (suffix : String) (form : Form) : String :=
  match form.wrapper? with
  | some wrapper => runtime ++ ".Maybe" ++ wrapper
  | none => form.goType suffix

/-- The type that the accessors of a struct field show. -/
def fieldInterfaceType (suffix : String) (form : Form) : String :=
  match form.wrapper? with
  | some _ => form.fieldType suffix
  | none => form.interfaceType suffix

/-- The value that a form starts with, if it has one. -/
def defaultValue? (suffix : String) : Form → Option String
  | .scalar s => s.default.map Literal.render
  | .list element => some ((Form.list element).goType suffix ++ "\x7b\x7d")
  | .record name => some (name.defaultValue suffix)

end Form

end Schemata.Go
