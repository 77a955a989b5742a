import Schemata.Text.Casing

/-!
# Names

Type names are paths whose segments are joined by underscores. Go names are the camel-case forms of such
paths; a variable name that would be a keyword of Go gets a tail.
-/

namespace Schemata.Naming

/-- A path extended by a segment; nothing stands before the first segment. -/
def join (path segment : String) : String :=
  if path.isEmpty then segment else path ++ "_" ++ segment

/-- A path extended by a segment, or nothing if there is no path. -/
def joinIfAny (path segment : String) : String :=
  if path.isEmpty then "" else join path segment

/-- A name with underscores in place of hyphens. -/
def underscored (name : String) : String :=
  name.map fun c => if c = '-' then '_' else c

/-- The Go name of a path extended by a segment. -/
def goName (path segment : String) : String :=
  Text.upperCamel (underscored (join path segment))

/-- The keywords of Go. -/
def keywords : List String :=
  ["break", "case", "chan", "const", "continue", "default", "defer", "else", "fallthrough", "for",
   "func", "go", "goto", "if", "import", "interface", "map", "package", "range", "return", "select",
   "struct", "switch", "type", "var"]

/-- The name of a Go variable; a keyword is lengthened to a name. -/
def variableName (name : String) : String :=
  let candidate := Text.lowerCamel (underscored name)
  if keywords.contains candidate then candidate ++ "Object" else candidate

end Schemata.Naming
