import Schemata.Arguments
import Schemata.Conversion
import Schemata.Listing
import Schemata.Output

/-!
# A run of the generator

A run reads the settings, reads the listed schemas, converts them and generates the sources. `Session.plan` does all of
that and ends with what is to be written; `Session.run` also writes it, to a tree of files and a stream. Every step notes
what it did in the journal, also in a run that fails.
-/

namespace Schemata

/-- Why a run fails. -/
inductive Failure where
  /-- A file cannot be read. -/
  | read (e : ReadError)
  /-- The schemas are refused. -/
  | schema (e : SchemaError)
  /-- The generated files cannot be written. -/
  | write (e : WriteError)
deriving Repr

namespace Failure

/-- What a failure says. -/
def message : Failure → String
  | .read e => e.message
  | .schema e => e.message
  | .write e => e.message

/-- The cause behind a failure, in words. -/
def source? : Failure → Option String
  | .read e => e.source?
  | .schema (.invalid _ source) => some source.message
  | .schema _ => none
  | .write e => some e.source

end Failure

/-- A failure and what was being done. -/
structure SessionError where
  /-- What was being done. -/
  context : String
  /-- What went wrong. -/
  failure : Failure
deriving Repr

/-- The failure on one line: what was being done, what went wrong, and the cause. -/
def SessionError.report (e : SessionError) : String :=
  "error: " ++ ": ".intercalate (e.context :: e.failure.message :: e.failure.source?.toList)

namespace Session

/-- What remains to be done once the sources are generated. -/
inductive Plan where
  /-- No list of schemas was given. -/
  | nothing
  /-- Nothing is to be written. -/
  | show (objects : List String) (files : List Go.SourceFile)
  /-- The files are to be written. -/
  | write (output : String) (files : List Go.SourceFile)
deriving DecidableEq, Repr

/-- The settings of a run: those of the settings file, if there is one, with the flags in place of their values. -/
def settings (files : FileView) (a : Arguments) : Except SessionError Settings :=
  match a.generatorConfig with
  | none => .ok (a.override {})
  | some path =>
    match Listing.readSettings files path with
    | .ok s => .ok (a.override s)
    | .error e => .error ⟨"loading generator config " ++ path, .read e⟩

/-- Generate the sources for the schemas that have been read. -/
def generate (s : Settings) (dryRun : Bool) (schemas : List Entries) : List Event × Except SessionError Plan :=
  match (Conversion.convert [] schemas).run.run {} with
  | (.error e, w) => (w.journal, .error ⟨"converting schemas", .schema e⟩)
  | (.ok collected, w) =>
    let sources := Go.generateCollected s w.graph collected
    let files := sources.files s
    (w.journal ++ [sources.event],
      .ok (if dryRun then .show collected.all.keys files else .write s.output files))

/-- Do everything but the writing. -/
def plan (files : FileView) (a : Arguments) : List Event × Except SessionError Plan :=
  match settings files a with
  | .error e => ([], .error e)
  | .ok s =>
    match s.config with
    | none => ([.nothingToGenerate], .ok .nothing)
    | some list =>
      match Listing.readAll files list none s.skipPolicy with
      | (events, .error e) => (events, .error ⟨"reading schemas listed in " ++ list, .read e⟩)
      | (events, .ok schemas) =>
        let (more, result) := generate s a.dryRun schemas
        (events ++ more, result)

/-- The events of a plan under which nothing is written. -/
def Plan.events : Plan → List Event
  | .show objects files => .dryRunObjects objects :: files.map fun f => .dryRunFile f.name f.package
  | _ => []

/-- What a run leaves behind. -/
structure Outcome where
  /-- The files and the stream. -/
  output : Output
  /-- What happened, in order. -/
  journal : List Event
  /-- Whether it failed. -/
  result : Except SessionError Unit

/-- Run the generator on a tree of files. -/
def run (a : Arguments) (output : Output) : Outcome :=
  match plan output.files.view a with
  | (events, .error e) => ⟨output, events, .error e⟩
  | (events, .ok (.write target files)) =>
    match output.write target files with
    | (output, more, .ok written) => ⟨output, events ++ more ++ [.done written.length], .ok ()⟩
    | (output, more, .error e) =>
      ⟨output, events ++ more, .error ⟨"writing generated files", .write e⟩⟩
  | (events, .ok plan) => ⟨output, events ++ plan.events, .ok ()⟩

/-- The events that are shown: details only if they are asked for. -/
def shown (a : Arguments) (journal : List Event) : List Event.Entry :=
  (journal.map Event.entry).filter fun entry => a.verbose || entry.severity != .debug

/-- The name and the version of the program. -/
def version : String := "schemagen 0.1.0"

end Session

end Schemata
