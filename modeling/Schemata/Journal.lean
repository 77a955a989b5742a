import Schemata.Text.Quoted

/-!
# The journal

What happens during a run is noted as a list of events. An event is a plain value; its level, its wording and
its fields are given by `Event.entry`.
-/

namespace Schemata

/-- How much an event matters. -/
inductive Severity where
  /-- Details of the work. -/
  | debug
  /-- Results of the work. -/
  | info
  /-- Something was left out. -/
  | warn
deriving DecidableEq, Repr

/-- The name of a level. -/
def Severity.name : Severity → String
  | .debug => "DEBUG"
  | .info => "INFO"
  | .warn => "WARN"

/-- Something that happened. -/
inductive Event where
  /-- A schema file was read. -/
  | readFile (path : String) (schemas : Nat)
  /-- A schema file could not be read and was left out. -/
  | skippedFile (path : String)
  /-- A schema was parsed. -/
  | parsedSchema (schema : String) (parent : Option String) (bases : List String)
  /-- A schema was joined with its bases. -/
  | joinedBases (schema : String) (bases : List String) (inherited : Nat)
  /-- All schemas were joined, in this order. -/
  | resolvedInheritance (order : List String)
  /-- The objects were collected. -/
  | collectedObjects (schemas supplementary joined topLevel objects : Nat)
  /-- The sources were generated. -/
  | generatedSources (objects wrappers names : Nat)
  /-- A generated file was written. -/
  | wroteFile (path package : String)
  /-- There is nothing to generate. -/
  | nothingToGenerate
  /-- The objects that a run would have written. -/
  | dryRunObjects (names : List String)
  /-- A file that a run would have written. -/
  | dryRunFile (file package : String)
  /-- All files were written. -/
  | done (files : Nat)
deriving DecidableEq, Repr

/-- An event in words. -/
structure Event.Entry where
  /-- How much it matters. -/
  severity : Severity
  /-- What happened. -/
  message : String
  /-- The details by name. -/
  fields : List (String × String) := []
deriving DecidableEq, Repr

/-- An event in words. -/
def Event.entry : Event → Event.Entry
  | .readFile path schemas =>
    ⟨.debug, "read schema file", [("path", path), ("schemas", schemas.repr)]⟩
  | .skippedFile path => ⟨.warn, "skipping schema file", [("path", path)]⟩
  | .parsedSchema schema parent bases =>
    ⟨.debug, "parsed schema",
      [("schema", schema), ("parent", Text.quotedOption parent), ("extends", Text.quotedList bases)]⟩
  | .joinedBases schema bases inherited =>
    ⟨.debug, "joined base schemas",
      [("schema", schema), ("bases", Text.quotedList bases), ("inherited", inherited.repr)]⟩
  | .resolvedInheritance order =>
    ⟨.debug, "resolved inheritance", [("order", Text.quotedList order)]⟩
  | .collectedObjects schemas supplementary joined topLevel objects =>
    ⟨.info, "collected objects",
      [("schemas", schemas.repr), ("supplementary", supplementary.repr), ("joined", joined.repr),
       ("top_level", topLevel.repr), ("objects", objects.repr)]⟩
  | .generatedSources objects wrappers names =>
    ⟨.info, "generated sources",
      [("objects", objects.repr), ("wrappers", wrappers.repr), ("names", names.repr)]⟩
  | .wroteFile path package => ⟨.debug, "wrote file", [("path", path), ("package", package)]⟩
  | .nothingToGenerate => ⟨.info, "no schema list given, nothing to generate", []⟩
  | .dryRunObjects names => ⟨.info, "dry run, collected objects", [("objects", Text.quotedList names)]⟩
  | .dryRunFile file package => ⟨.info, "dry run, would write", [("file", file), ("package", package)]⟩
  | .done files => ⟨.info, "done", [("files", files.repr)]⟩

end Schemata
