import Schemata.Document
import Schemata.Path
import Schemata.Text.Bytes

/-!
# Files

A tree of directories and files below the current directory, with the operations that a run needs: reading a file,
finding out whether two paths lead to one file, making directories, writing a file. A path is followed segment by
segment; a segment of two dots leads up. Outside of the current directory only the directories above it are known, up
to the root of all files.

A place is the list of names that lead to it from the current directory. A place above the current directory is a list
of double dots, and the root of all files has the name `/`, which is the name of nothing else.
-/

namespace Schemata

/-- Why a file operation fails. -/
inductive FileFault where
  /-- There is nothing at the path. -/
  | notFound
  /-- There is a directory where a file is wanted. -/
  | isADirectory
  /-- There is a file where a directory is wanted. -/
  | notADirectory
  /-- The file does not hold text. -/
  | invalidData
  /-- There is something where a directory is to be made. -/
  | alreadyExists
  /-- The path holds a null character. -/
  | invalidPath
  /-- The path, or a name in it, is too long. -/
  | tooLong
deriving DecidableEq, Repr

/-- What a fault says. -/
def FileFault.message : FileFault → String
  | .notFound => "No such file or directory (os error 2)"
  | .isADirectory => "Is a directory (os error 21)"
  | .notADirectory => "Not a directory (os error 20)"
  | .invalidData => "stream did not contain valid UTF-8"
  | .alreadyExists => "File exists (os error 17)"
  | .invalidPath => "file name contained an unexpected NUL byte"
  | .tooLong => "File name too long (os error 36)"

/-- What a file holds. -/
inductive Content where
  /-- A document. -/
  | document (value : Document)
  /-- Text that is no document. -/
  | malformed
  /-- Bytes that are no text. -/
  | notText
  /-- Text that has been written. -/
  | written (text : String)
deriving Repr, Inhabited

/-- What is found at a place. -/
inductive FileTree.Entry where
  /-- A directory. -/
  | directory
  /-- A file. -/
  | file (content : Content)
deriving Repr

/-- The directories and files below the current directory, each under the names that lead to it. -/
structure FileTree where
  /-- The places with what is found there. -/
  places : List (List String × FileTree.Entry) := []
deriving Repr, Inhabited

namespace FileTree

/-- Whether a place is the current directory, a directory above it or the root. -/
def isAbove (place : List String) : Bool :=
  place.all fun name => name == ".." || name == "/"

/-- The place one step up. Above the root there is only the root. -/
def stepUp (place : List String) : List String :=
  match place.getLast? with
  | none | some ".." => place ++ [".."]
  | some "/" => place
  | some _ => place.dropLast

/-- What is found at a place. The current directory and the directories above it are always there. -/
def entry? (t : FileTree) (place : List String) : Option Entry :=
  if isAbove place then some .directory else t.places.lookup place

/-- Put something at a place. -/
def put (t : FileTree) (place : List String) (e : Entry) : FileTree :=
  ⟨(place, e) :: t.places.filter fun (other, _) => other != place⟩

/-- The most bytes in a name. -/
def maxNameLength : Nat := 255

/-- The most bytes in a path. -/
def maxPathLength : Nat := 4095

/-- Follow the segments of a path from a place. -/
def follow (t : FileTree) : List String → List String → Except FileFault (List String)
  | place, [] => .ok place
  | place, segment :: rest =>
    match t.entry? place with
    | none => .error .notFound
    | some (.file _) => .error .notADirectory
    | some .directory =>
      if Path.isBlank segment then follow t place rest
      else if segment = ".." then follow t (stepUp place) rest
      else if maxNameLength < Text.byteLength segment then .error .tooLong
      else follow t (place ++ [segment]) rest

/-- The place that a path leads to, whether or not something is there. -/
def place (t : FileTree) (path : String) : Except FileFault (List String) :=
  if path.toList.contains '\x00' then .error .invalidPath
  else if maxPathLength < Text.byteLength path then .error .tooLong
  else if path.isEmpty then .error .notFound
  else t.follow (if Path.isAbsolute path then ["/"] else []) (Path.segments path)

/-- The place that a path leads to, if something is there. -/
def canonical? (t : FileTree) (path : String) : Option (List String) :=
  match t.place path with
  | .ok place => if (t.entry? place).isSome then some place else none
  | .error _ => none

/-- Whether a path leads to a directory. -/
def isDirectory (t : FileTree) (path : String) : Bool :=
  match t.place path with
  | .ok place => ((t.entry? place) matches some .directory)
  | .error _ => false

/-- Read a file. -/
def read (t : FileTree) (path : String) : Except FileFault Content :=
  match t.place path with
  | .error fault => .error fault
  | .ok place =>
    match t.entry? place with
    | none => .error .notFound
    | some .directory => .error .isADirectory
    | some (.file .notText) => .error .invalidData
    | some (.file content) => .ok content

/-- Make one directory. -/
def makeDirectory (t : FileTree) (path : String) : Except FileFault FileTree := do
  let place ← t.place path
  match t.entry? place with
  | some _ => .error .alreadyExists
  | none => return t.put place .directory

/-- Make a directory and the directories above it, as far as they are missing, for at most a number of directories. -/
def makeDirectoriesWithin : Nat → FileTree → String → Except FileFault FileTree
  | 0, _, _ => .error .notFound
  | bound + 1, t, path =>
    if path.isEmpty then .ok t
    else
      match t.makeDirectory path with
      | .ok t => .ok t
      | .error .notFound => do
        let some parent := Path.parent? path | .error .notFound
        let t ← makeDirectoriesWithin bound t parent
        if t.isDirectory path then .ok t else t.makeDirectory path
      | .error fault => if t.isDirectory path then .ok t else .error fault

/-- Make a directory and the directories above it, as far as they are missing. -/
def makeDirectories (t : FileTree) (path : String) : Except FileFault FileTree :=
  makeDirectoriesWithin (path.length + 1) t path

/-- Write a file, in place of what a file at the path held. -/
def write (t : FileTree) (path text : String) : Except FileFault FileTree := do
  let place ← t.place path
  match t.entry? place with
  | some .directory => .error .isADirectory
  | _ => return t.put place (.file (.written text))

/-- Put a directory at a place unless something is there. -/
def ensure (t : FileTree) (place : List String) : FileTree :=
  if (t.entry? place).isSome then t else t.put place .directory

/-- Go on from a place to a segment of a path. The place becomes a directory. -/
def enter : FileTree × List String → String → FileTree × List String
  | (t, place), segment =>
    if Path.isBlank segment then (t, place)
    else if segment = ".." then (t.ensure place, stepUp place)
    else (t.ensure place, place ++ [segment])

/-- Put a file or a directory at a path, with the directories on the way. -/
def provide (t : FileTree) (path : String) (e : Entry) : FileTree :=
  let (t, place) := (Path.segments path).foldl enter (t, [])
  t.put place e

/-- The files below the current directory that are not files of another tree, with the text written to them. -/
def writtenBeyond (t before : FileTree) : List (String × String) :=
  let below := t.places.filter fun (place, _) => !isAbove (place.take 1)
  below.filterMap fun (place, e) =>
    match e, before.entry? place with
    | .file (.written text), none => some ("/".intercalate place, text)
    | _, _ => none

end FileTree

/-- How files are read: their contents, and whether two paths lead to one file. -/
structure FileView where
  /-- Read a file. -/
  read : String → Except FileFault Content
  /-- The place that a path leads to, if something is there. -/
  canonical? : String → Option (List String)

/-- A tree of files as one to read from. -/
def FileTree.view (t : FileTree) : FileView :=
  ⟨t.read, t.canonical?⟩

end Schemata
