import Schemata.Go.Accessor

/-!
# Declarations for members and records

A record with members is declared as a struct, an interface that lists its accessors, a mutable interface that
embeds that one, the accessors themselves, and a constructor. Where a member is stored only shows in the tag of
its struct field: a member on top is a column of the database as well as a key.
-/

namespace Schemata.Go

namespace Member

/-- The Go name of a member. -/
def goName (m : Member) : String :=
  Naming.goName m.name ""

/-- The tag of the struct field. -/
def annotation (m : Member) : String :=
  let option := if m.form.isNull then ",omitempty" else ""
  let key := "json:\"" ++ m.name ++ option ++ "\""
  match m.placement with
  | .top => "\x60db:\"" ++ m.name ++ "\" " ++ key ++ "\x60"
  | .nested => "\x60" ++ key ++ "\x60"

/-- The struct field. -/
def field (m : Member) (suffix : String) : String :=
  "\t" ++ m.goName ++ " " ++ m.form.fieldType suffix ++ " " ++ m.annotation ++ "\n"

/-- The name and the type of the getter. -/
def getterHeader (m : Member) (suffix : String) : String :=
  Naming.goName "get" m.name ++ "() " ++ m.form.fieldInterfaceType suffix

/-- The name and the type of the setter; its argument is named if `named` holds. -/
def setterHeader (m : Member) (suffix : String) (named : Bool) : String :=
  let argument := if named then Naming.variableName m.name ++ " " else ""
  Naming.goName "set" m.name ++ "(" ++ argument ++ m.form.fieldInterfaceType suffix ++ ")"

/-- The getter as a method of `owner`. -/
def getter (m : Member) (owner suffix : String) : String :=
  m.getterHeader suffix ++ " \x7b\n" ++
    m.form.getter suffix (owner ++ "." ++ m.goName) "result" 1 ++ "\n\x7d"

/-- The setter as a method of `owner`. -/
def setter (m : Member) (owner interfaceSuffix typeSuffix : String) : String :=
  m.setterHeader interfaceSuffix true ++ " \x7b\n" ++
    m.form.setter typeSuffix (owner ++ "." ++ m.goName) (Naming.variableName m.name) 1 ++ "\n\x7d"

/-- The value that a constructor gives the member, if it gives one: the default, if there is one, in the wrapper,
if there is one; a member with a wrapper and without a default starts with the null. -/
def initialValue? (m : Member) (suffix : String) : Option String :=
  let value := if m.hasDefault then m.form.defaultValue? suffix else none
  match value, m.form.wrapper? with
  | some value, some wrapper => some (runtime ++ ".Make" ++ wrapper ++ "(" ++ value ++ ")")
  | some value, none => some value
  | none, some wrapper => some (runtime ++ ".MakeNull" ++ wrapper ++ "()")
  | none, none => none

/-- The entry of a constructor. -/
def constructorEntry? (m : Member) (suffix : String) : Option String :=
  (m.initialValue? suffix).map fun value => m.goName ++ ": " ++ value

end Member

namespace Record

/-- The struct. -/
def struct (r : Record) (suffix : String) : String :=
  "type " ++ r.name.name suffix ++ " struct \x7b\n" ++
    String.join (r.members.map fun m => m.field suffix) ++ "\x7d\n"

/-- The interface that lists the accessors. -/
def interface (r : Record) (suffix : String) : String :=
  "type " ++ r.name.interfaceType suffix ++ " interface \x7b\n" ++
    String.join (r.members.map fun m =>
      "\t" ++ m.getterHeader suffix ++ "\n\t" ++ m.setterHeader suffix false ++ "\n") ++ "\x7d\n"

/-- The mutable interface, which embeds the other one. -/
def mutableInterface (r : Record) (interfaceSuffix typeSuffix : String) : String :=
  "type " ++ r.name.interfaceType typeSuffix ++ " interface \x7b\n\t" ++
    r.name.interfaceType interfaceSuffix ++ "\n\x7d\n"

/-- The variable that the methods of a record are called on. -/
def receiver (r : Record) (typeSuffix : String) : String :=
  Naming.variableName (Naming.join r.typeName typeSuffix)

/-- The accessors of a member as methods of the record. -/
def methods (r : Record) (interfaceSuffix typeSuffix : String) (m : Member) : List String :=
  let owner := r.receiver typeSuffix
  let header := "func (" ++ owner ++ " " ++ r.name.goType typeSuffix ++ ") "
  [header ++ m.getter owner interfaceSuffix, header ++ m.setter owner interfaceSuffix typeSuffix]

/-- All accessors, with a blank line between them. -/
def implementation (r : Record) (interfaceSuffix typeSuffix : String) : String :=
  "\n".intercalate ((r.members.flatMap (r.methods interfaceSuffix typeSuffix)).map (· ++ "\n"))

/-- The constructor. -/
def constructor (r : Record) (suffix : String) : String :=
  let name := r.name.name suffix
  "func Make" ++ name ++ "() " ++ r.name.goType suffix ++ " \x7b\n\treturn &" ++ name ++ "\x7b\n" ++
    String.join ((r.members.filterMap fun m => m.constructorEntry? suffix).map fun entry =>
      "\t\t" ++ entry ++ ",\n") ++ "\t\x7d\n\x7d\n"

/-- The constant that holds the name of the schema. -/
def schemaName (r : Record) (package : String) : String :=
  Naming.goName r.typeName "" ++ "SchemaID " ++ package ++ ".SchemaID = \"" ++ r.typeName ++ "\""

end Record

/-- A block of constant declarations; no declarations make no block. -/
def constBlock (declarations : List String) : String :=
  if declarations.isEmpty then ""
  else "const (\n" ++ String.join (declarations.map fun d => "\t" ++ d ++ "\n") ++ ")\n"

end Schemata.Go
