/-!
# Typed wrappers of fetches and lists

The runtime fetches and lists resources without their type. For every schema, wrappers are written that convert
the results: a fetch by identifier or by filter, and a list, each with and without a lock, for the interface type
and for the raw type.
-/

namespace Schemata.Go

/-- Which wrapper is written. -/
structure WrapperFlavor where
  /-- Whether the raw type is returned. -/
  raw : Bool := false
  /-- Whether a lock is taken. -/
  lock : Bool := false
  /-- Whether a fetch is by filter; lists always are. -/
  filter : Bool := false
deriving DecidableEq, Repr

namespace WrapperFlavor

/-- The two fetches: by identifier and by filter. -/
def fetches (raw lock : Bool) : List WrapperFlavor :=
  [false, true].map fun filter => { raw, lock, filter }

/-- The word for a lock. -/
def lockWord (f : WrapperFlavor) : String :=
  if f.lock then "Lock" else ""

/-- The word for the raw type. -/
def rawWord (f : WrapperFlavor) : String :=
  if f.raw then "Raw" else ""

/-- The word for a fetch by filter. -/
def filterWord (f : WrapperFlavor) : String :=
  if f.filter then "Filter" else ""

/-- The verb of a fetch, which the runtime's method has as well. -/
def fetchVerb (f : WrapperFlavor) : String :=
  f.lockWord ++ "Fetch" ++ f.filterWord ++ f.rawWord

/-- The verb of a list, which the runtime's method has as well. -/
def listVerb (f : WrapperFlavor) : String :=
  f.lockWord ++ "List" ++ f.rawWord

/-- The lock policy as an argument. -/
def lockArgument (f : WrapperFlavor) : String :=
  if f.lock then ", policy" else ""

/-- The lock policy as a parameter. -/
def lockParameter (f : WrapperFlavor) (runtime : String) : String :=
  if f.lock then ", policy " ++ runtime ++ ".LockPolicy" else ""

/-- What a fetch finds the resource by. -/
def key (f : WrapperFlavor) : String :=
  if f.filter then "filter" else "id"

/-- What a fetch finds the resource by, with its type. -/
def keyParameter (f : WrapperFlavor) (runtime : String) : String :=
  if f.filter then "filter " ++ runtime ++ ".Filter" else "id string"

/-- A call that returns early on an error. -/
def guardedCall (result verb arguments : String) : String :=
  "\t" ++ result ++ ", err := schema." ++ verb ++ "(" ++ arguments ++ ")\n" ++
    "\tif err != nil \x7b\n" ++
    "\t\treturn nil, err\n" ++
    "\t\x7d\n"

/-- The wrapper of a fetch that returns one value of `type`. -/
def fetch (f : WrapperFlavor) (runtime name type : String) : String :=
  "func " ++ f.fetchVerb ++ name ++ "(schema " ++ runtime ++ ".ISchema, " ++ f.keyParameter runtime ++
    ", context " ++ runtime ++ ".Context" ++ f.lockParameter runtime ++ ") (" ++ type ++ ", error) \x7b\n" ++
    guardedCall "result" f.fetchVerb (f.key ++ ", context" ++ f.lockArgument) ++
    "\treturn result.(" ++ type ++ "), nil\n" ++
    "\x7d\n"

/-- The wrapper of a list that returns a slice of values of `type`. -/
def list (f : WrapperFlavor) (runtime name type : String) : String :=
  "func " ++ f.listVerb ++ name ++ "(schema " ++ runtime ++ ".ISchema, filter " ++ runtime ++
    ".Filter, paginator *" ++ runtime ++ ".Paginator, context " ++ runtime ++ ".Context" ++
    f.lockParameter runtime ++ ") ([]" ++ type ++ ", error) \x7b\n" ++
    guardedCall "list" f.listVerb ("filter, paginator, context" ++ f.lockArgument) ++
    "\tresult := make([]" ++ type ++ ", len(list))\n" ++
    "\tfor i, object := range list \x7b\n" ++
    "\t\tresult[i] = object.(" ++ type ++ ")\n" ++
    "\t\x7d\n" ++
    "\treturn result, nil\n" ++
    "\x7d\n"

/-- All wrappers for one type: for each choice of lock the two fetches and the list. -/
def all (raw : Bool) (runtime name type : String) : List String :=
  [false, true].flatMap fun lock =>
    (fetches raw lock).map (fun f => f.fetch runtime name type) ++
      [({ raw, lock } : WrapperFlavor).list runtime name type]

end WrapperFlavor

end Schemata.Go
