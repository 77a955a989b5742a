import Schemata.ItemError
import Schemata.Mark
import Schemata.Naming
import Schemata.Scalar

/-!
# Definition trees

A definition is read into a `Shape`: a scalar, an array of one element shape, or an object with fields. The
tree that a reader builds has no sharing; `Schemata.Graph` plants it as nodes that can be shared.

What a definition means depends on where it stands (`Context`): the path of names down to it, its depth, and
the requiredness and the default value that the definitions around it hand down. A definition's own
`default` takes the place of one that is handed down; the default of an object is divided among its
properties by name; an array hands everything on to its element.
-/

namespace Schemata

/-- Where a property is stored: as a column of its own, or inside the value of another property. -/
inductive Placement where
  /-- A property of the root object of a schema. -/
  | top
  /-- A property of any other object. -/
  | nested
deriving DecidableEq, Repr, Inhabited

/-- The placement of a property at a depth. The root property and the properties of its object are on top. -/
def Placement.ofLevel (level : Nat) : Placement :=
  if level ≤ 1 then .top else .nested

/-- A named place in an object, apart from what it holds. -/
structure Field where
  /-- The name of the property. -/
  name : String
  /-- Where the property is stored. -/
  placement : Placement := .top
  /-- Whether a default that is not the null was given. -/
  hasDefault : Bool := false
  /-- Where the names of the objects below the property are renamed. -/
  mark : Mark := {}
deriving DecidableEq, Repr, Inhabited

/-- The tree of a definition. -/
inductive Shape where
  /-- A leaf. -/
  | scalar (s : Scalar)
  /-- A sequence of values of one shape. -/
  | array (element : Shape)
  /-- A record: its type name, the names that inherited properties must be required under, its fields. -/
  | object (typeName : String) (required : List String) (fields : List (Field × Shape))
deriving Repr

namespace Shape

/-- Whether a shape is an object. -/
def isObject : Shape → Bool
  | .object .. => true
  | _ => false

/-- What the surroundings of a definition tell about it. -/
structure Context where
  /-- The names down to the definition, joined. -/
  path : String := ""
  /-- The number of properties above the definition. -/
  level : Nat := 0
  /-- Whether a value must be present. -/
  required : Bool := false
  /-- The default that is handed down. -/
  defaults : Option Document := none

/-- The scalar of a definition. A default makes a value present. -/
def scalarOf (ctx : Context) (kind : ScalarKind) (nullable : Bool) (data : Entries) : Scalar :=
  let literal := ctx.defaults.bind Literal.ofDocument?
  { kind, nullable, default := literal
    required := ctx.required || data.hasKey "default" || literal.isSome }

/-- The names in ascending order, each once. -/
def ascending (names : List String) : List String :=
  (Registry.ofList id names).keys

/-- The required names of an object definition; a missing list names none. -/
def requiredNames? (data : Entries) : Option (List String) :=
  match data.get? "required" with
  | none => some []
  | some names => names.textList?.map ascending

/-- The required names that an object keeps for the properties that it will inherit. -/
def keptNames (ctx : Context) (required : List String) : List String :=
  if ctx.level ≤ 1 then required else []

/-- What a property named `name` hands down to the item it holds: a property that is called `Id` in Go must
be present, and its own default takes the place of the one handed down. -/
def Context.below (ctx : Context) (name : String) (data : Entries) : Context where
  path := Naming.join ctx.path name
  level := ctx.level + 1
  required := ctx.required || Naming.goName name "" == "Id"
  defaults := (data.get? "default").or ctx.defaults

/-- What an object hands down to its property `name`. -/
def Context.property (ctx : Context) (required : List String) (name : String) : Context :=
  { ctx with
    required := required.contains name
    defaults := ctx.defaults.bind fun value => value.entries?.bind fun entries => entries.get? name }

/-- The field of a property, given what it hands down. -/
def fieldOf (ctx child : Context) (name : String) : Field where
  name := name
  placement := .ofLevel ctx.level
  hasDefault := child.defaults.any fun value => !value.isNull
  mark := .after (Text.byteLength (Naming.join ctx.path ""))

mutual

/-- Read the item of a definition whose type is known. -/
def parseItem (ctx : Context) (type : TypeClass) (data : Entries) : Except ItemError Shape :=
  match type.token with
  | .scalar kind => .ok (.scalar (scalarOf ctx kind type.nullable data))
  | .array =>
    match _hitems : data.get? "items" with
    | none => .error (.arrayWithoutItems ctx.path)
    | some raw =>
      match _hentries : raw.entries? with
      | none => .error (.arrayWithoutItems ctx.path)
      | some items =>
        match items.get? "type" with
        | none => .error (.itemsWithoutType ctx.path)
        | some rawType =>
          match TypeClass.ofDocument? rawType with
          | none => .error (.unsupportedType ctx.path rawType)
          | some element => (parseItem ctx element items).map .array
  | .object =>
    match requiredNames? data with
    | none => .error (.badRequired ctx.path)
    | some required =>
      match _hproperties : data.get? "properties" with
      | none => .ok (.object ctx.path (keptNames ctx required) [])
      | some raw =>
        match _hentries : raw.entries? with
        | none => .error (.badPropertiesShape ctx.path)
        | some definitions =>
          (parseFields ctx required definitions).map (.object ctx.path (keptNames ctx required))
termination_by 2 * sizeOf data
decreasing_by
  · have := Entries.sizeOf_get?_lt _hitems
    have := Document.sizeOf_entries?_lt _hentries
    omega
  · have := Entries.sizeOf_get?_lt _hproperties
    have := Document.sizeOf_entries?_lt _hentries
    omega

/-- Read the definition of the property `name`. -/
def parseField (ctx : Context) (name : String) (data : Entries) : Except ItemError (Field × Shape) :=
  match data.get? "type" with
  | none => .error (.missingType (Naming.join ctx.path name))
  | some rawType =>
    match TypeClass.ofDocument? rawType with
    | none => .error (.unsupportedType (Naming.join ctx.path name) rawType)
    | some type =>
      (parseItem (ctx.below name data) type data).map fun shape =>
        (fieldOf ctx (ctx.below name data) name, shape)
termination_by 2 * sizeOf data + 1

/-- Read the properties of an object, in the order they are written. -/
def parseFields (ctx : Context) (required : List String) (definitions : Entries) :
    Except ItemError (List (Field × Shape)) :=
  match definitions with
  | [] => .ok []
  | (key, definition) :: rest =>
    match key.text? with
    | none => .error (.badPropertyName ctx.path)
    | some name =>
      match _hentries : definition.entries? with
      | none => .error (.badPropertyDefinition ctx.path name)
      | some data =>
        match parseField (ctx.property required name) name data with
        | .error e => .error e
        | .ok field => (parseFields ctx required rest).map (field :: ·)
termination_by 2 * sizeOf definitions
decreasing_by
  · have := Document.sizeOf_entries?_lt _hentries
    simp only [List.cons.sizeOf_spec, Prod.mk.sizeOf_spec]
    omega
  · simp only [List.cons.sizeOf_spec, Prod.mk.sizeOf_spec]
    omega

end

end Shape

end Schemata
