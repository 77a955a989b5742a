/-!
# Paths

A path is a text whose segments are divided by slashes. It is kept as it was given, so that messages show it as
it was given: joining and taking the parent work on the text. Empty segments and single dots do not count as
names.
-/

namespace Schemata.Path

/-- The segments between the slashes of a path. -/
def split : List Char → List (List Char)
  | [] => [[]]
  | c :: cs =>
    match split cs with
    | [] => [[c]]
    | segment :: rest => if c = '/' then [] :: segment :: rest else (c :: segment) :: rest

/-- The segments between the slashes of a path. -/
def segments (path : String) : List String :=
  (split path.toList).map String.ofList

/-- Whether a path starts at the root of all files. -/
def isAbsolute (path : String) : Bool :=
  path.toList.head? == some '/'

/-- Whether a segment names nothing. -/
def isBlank (segment : String) : Bool :=
  segment == "" || segment == "."

/-- Remove the blank segments at the end, except for the first segment of all. -/
def trimEnd : List String → List String
  | [] => []
  | segment :: rest => segment :: (rest.reverse.dropWhile isBlank).reverse

/-- The path without its last segment. The path of nothing and the root have no parent. -/
def parent? (path : String) : Option String :=
  match trimEnd (segments path) with
  | [] | [""] => none
  | named =>
    match trimEnd named.dropLast with
    | [""] => some "/"
    | above => some ("/".intercalate above)

/-- A path inside a directory. An absolute path stays as it is, and so does a path inside the directory without a
name. -/
def join (directory path : String) : String :=
  if isAbsolute path || directory.isEmpty then path
  else if directory.toList.getLast? == some '/' then directory ++ path
  else directory ++ "/" ++ path

end Schemata.Path
