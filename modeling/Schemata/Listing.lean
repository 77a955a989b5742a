import Schemata.FileTree
import Schemata.Journal
import Schemata.Settings

/-!
# Schema files and lists of them

A schema file is a document with a list of schemas under `schemas`. A list of schema files has paths there instead,
which are relative to the directory of the list. A path that starts with `embed` refers to something built in and is
passed over. A file that cannot be read is left out or ends the reading, as the policy says.
-/

namespace Schemata

/-- Why a file cannot be read. -/
inductive ReadError where
  /-- The file cannot be opened. -/
  | io (path : String) (fault : FileFault)
  /-- The file holds no document, or one that is nested too deep. -/
  | malformed (path : String)
  /-- The document has no list of schemas. -/
  | noSchemas (path : String)
  /-- A schema is no mapping. -/
  | badSchema (path : String)
  /-- An entry of a list of schema files is no path. -/
  | badSchemaPath (path : String)
  /-- The file holds no settings. -/
  | badSettings (path : String)
deriving DecidableEq, Repr

namespace ReadError

/-- The cause behind an error, in words. -/
def source? : ReadError → Option String
  | .io _ fault => some fault.message
  | .malformed _ => some "malformed document"
  | .badSettings _ => some "malformed settings"
  | _ => none

/-- What an error says. -/
def message : ReadError → String
  | .io path fault => "failed to open file " ++ path ++ ": " ++ fault.message
  | .malformed path => "cannot parse given schema from file " ++ path ++ ": malformed document"
  | .noSchemas path => "no schemas found in file " ++ path
  | .badSchema path => "error in file " ++ path ++ ": schema should be a map"
  | .badSchemaPath path => "in config file " ++ path ++ " schemas should be filenames"
  | .badSettings path => "invalid generator config " ++ path ++ ": malformed settings"

end ReadError

namespace Listing

/-- How deep lists and mappings may be nested in a document. -/
def maxDepth : Nat := 128

/-- Read the document in a file. -/
def readDocument (files : FileView) (path : String) : Except ReadError Document :=
  match files.read path with
  | .error fault => .error (.io path fault)
  | .ok (.document value) => if value.depth ≤ maxDepth then .ok value else .error (.malformed path)
  | .ok _ => .error (.malformed path)

/-- The list under `schemas` in a file. The list itself must not be tagged. -/
def readEntries (files : FileView) (path : String) : Except ReadError (List Document) := do
  let document ← readDocument files path
  match document.entries?.bind fun entries => entries.get? "schemas" with
  | some (.list items) => return items
  | _ => .error (.noSchemas path)

/-- The entries of an untagged mapping. -/
def mapping? : Document → Option Entries
  | .mapping entries => some entries
  | _ => none

/-- Read the schemas in a file. -/
def readSingle (files : FileView) (path : String) : Except ReadError (List Entries) := do
  let items ← readEntries files path
  match items.mapM mapping? with
  | some schemas => return schemas
  | none => .error (.badSchema path)

/-- Whether a path refers to something built in. -/
def isEmbedded (name : String) : Bool :=
  "embed".toList.isPrefixOf name.toList

/-- The path of a listed schema file. -/
def locate (config name : String) : String :=
  Path.join ((Path.parent? config).getD "") name

/-- Read the listed files, one after the other. -/
def readListed (files : FileView) (config : String) (restricted : Option (List String)) (policy : SkipPolicy) :
    List Document → List Event × Except ReadError (List Entries)
  | [] => ([], .ok [])
  | .text name :: rest =>
    let path := locate config name
    if isEmbedded name || (restricted.isSome && files.canonical? path == restricted) then
      readListed files config restricted policy rest
    else
      match readSingle files path, policy with
      | .ok schemas, _ =>
        let (events, result) := readListed files config restricted policy rest
        (.readFile path schemas.length :: events, result.map (schemas ++ ·))
      | .error _, .skip =>
        let (events, result) := readListed files config restricted policy rest
        (.skippedFile path :: events, result)
      | .error e, .fail => ([], .error e)
  | _ :: _ => ([], .error (.badSchemaPath config))

/-- Read the schemas in all files of a list, except for a restricted file. What happened is returned as well. -/
def readAll (files : FileView) (config : String) (restricted : Option String) (policy : SkipPolicy) :
    List Event × Except ReadError (List Entries) :=
  match readEntries files config with
  | .error e => ([], .error e)
  | .ok items => readListed files config (restricted.bind files.canonical?) policy items

/-- The paths of the files that a list may lead to. -/
def paths (config : String) (items : List Document) : List String :=
  items.filterMap fun
    | .text name => if isEmbedded name then none else some (locate config name)
    | _ => none

/-- Read settings. -/
def readSettings (files : FileView) (path : String) : Except ReadError Settings :=
  match files.read path with
  | .error fault => .error (.io path fault)
  | .ok (.document value) =>
    match Settings.ofDocument? value with
    | some settings => .ok settings
    | none => .error (.badSettings path)
  | .ok _ => .error (.badSettings path)

end Listing

end Schemata
