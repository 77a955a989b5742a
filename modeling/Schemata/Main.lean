import Schemata.Document.Flow
import Schemata.Session

/-!
# The program

Reads the command line and the files it leads to, runs the generator on them and writes the result. All decisions are
made by `Schemata.Session`; this module only moves texts in and out.
-/

namespace Schemata.Main

/-- The fault behind an error of the file system. -/
def faultOf : IO.Error → FileFault
  | .noFileOrDirectory .. => .notFound
  | .alreadyExists .. => .alreadyExists
  | .inappropriateType .. => .isADirectory
  | _ => .notADirectory

/-- Read a file from disk. -/
def load (path : String) : IO (Except FileFault Content) := do
  try
    let bytes ← IO.FS.readBinFile path
    match String.fromUTF8? bytes with
    | none => return .error .invalidData
    | some text => return .ok ((Document.Flow.parse? text).elim .malformed .document)
  catch e => return .error (faultOf e)

/-- The files that have been read from disk, by path. -/
abbrev Loaded := List (String × Except FileFault Content)

/-- The files that have been read as files to read from. -/
def Loaded.view (loaded : Loaded) : FileView where
  read path := (loaded.lookup path).getD (.error .notFound)
  canonical? _ := none

/-- Read a file from disk and keep it with the others. -/
def Loaded.add (loaded : Loaded) (path : String) : IO Loaded := do
  return (path, ← load path) :: loaded

/-- Read all files that a command line leads to. -/
def loadAll (a : Arguments) : IO Loaded := do
  let mut loaded : Loaded := []
  if let some path := a.generatorConfig then
    loaded ← loaded.add path
  if let .ok settings := Session.settings loaded.view a then
    if let some list := settings.config then
      loaded ← loaded.add list
      if let .ok items := Listing.readEntries loaded.view list then
        for path in Listing.paths list items do
          loaded ← loaded.add path
  return loaded

/-- Show events. -/
def showEvents (a : Arguments) (events : List Event) : IO Unit :=
  (Session.shown a events).forM fun entry =>
    let details := entry.fields.map fun (key, value) => " " ++ key ++ "=" ++ value
    IO.eprintln (entry.severity.name ++ " " ++ entry.message ++ String.join details)

/-- Write a generated file to disk, or print it. The path is returned. -/
def store (output : String) (file : Go.SourceFile) : IO (Except WriteError (Option String)) := do
  match file.path? output with
  | none =>
    (← IO.getStdout).putStr file.content
    return .ok none
  | some path =>
    let directory := (Path.parent? path).getD ""
    try
      unless directory.isEmpty do IO.FS.createDirAll directory
    catch e => return .error (.io directory (faultOf e))
    try
      IO.FS.writeFile path file.content
      return .ok (some path)
    catch e => return .error (.io path (faultOf e))

/-- Write generated files in order, up to the first that cannot be written. The number of files on disk is returned. -/
def storeAll (a : Arguments) (output : String) : List Go.SourceFile → Nat → IO (Except WriteError Nat)
  | [], count => return .ok count
  | file :: rest, count => do
    match ← store output file with
    | .error e => return .error e
    | .ok none => storeAll a output rest count
    | .ok (some path) =>
      showEvents a [.wroteFile path file.package]
      storeAll a output rest (count + 1)

/-- Report a failure. -/
def fail (e : SessionError) : IO UInt32 := do
  IO.eprintln e.report
  return 1

/-- Run the generator on the files on disk. -/
def run (a : Arguments) : IO UInt32 := do
  let (events, result) := Session.plan (← loadAll a).view a
  showEvents a events
  match result with
  | .error e => fail e
  | .ok (.write output files) =>
    match ← storeAll a output files 0 with
    | .error e => fail ⟨"writing generated files", .write e⟩
    | .ok count =>
      showEvents a [.done count]
      return 0
  | .ok plan =>
    showEvents a plan.events
    return 0

end Schemata.Main

/-- Run the generator as the command line says. -/
def main (arguments : List String) : IO UInt32 := do
  match Schemata.Arguments.parse arguments with
  | .ok a => Schemata.Main.run a
  | .error .displayVersion =>
    IO.println Schemata.Session.version
    return 0
  | .error .displayHelp =>
    IO.println "Usage: schemagen [OPTIONS]"
    return 0
  | .error e =>
    IO.eprintln "error: the arguments are not understood"
    return e.exitCode.toUInt32
