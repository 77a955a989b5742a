import Schemata.Lineage

/-!
# Conversion of schemas to objects

A conversion parses the schemas, joins them with the schemas that they extend, and collects the objects of the
schemas that are to be generated: the root objects, and all objects below them.
-/

namespace Schemata

/-- The objects to generate, by type name. -/
structure Collected where
  /-- The root objects. -/
  topLevel : Registry ItemId := ∅
  /-- All objects. -/
  all : Registry ItemId := ∅
deriving DecidableEq, Repr, Inhabited

namespace Conversion

/-- Parse a schema. -/
def parseSchema (data : Entries) : Build Schema := do
  let s ← Build.onGraph fun g => Schema.parse g data
  Build.note (.parsedSchema s.id s.parent s.bases)
  return s

/-- Parse schemas, in order; no two of them may have one name. -/
def parseAll (data : List Entries) : Build (Registry Schema) :=
  data.foldlM
    (fun schemas entries => do
      let s ← parseSchema entries
      MonadExcept.ofExcept ((schemas.register Schema.id s).mapError .ofDuplicateSchema))
    ∅

/-- Two sets of schemas as one; no two schemas may have one name. -/
def together (supplementary generated : Registry Schema) : Except SchemaError (Registry Schema) :=
  [supplementary, generated].foldlM
    (fun all schemas => (all.registerAll Schema.id schemas).mapError .ofDuplicateSchema) ∅

/-- Collect the objects of one more schema: its root object and the objects below it. -/
def collectSchema (g : Graph) (topLevel nested : Registry ItemId) (s : Schema) :
    Except SchemaError (Registry ItemId × Registry ItemId) := do
  let root ← s.objects g 1 0
  let below ← s.objects g (-1) 1
  let nested ← (nested.registerAll g.typeName below).mapError fun e =>
    .invalid s.id (.ofDuplicateObject s.id e)
  return (topLevel.insertAll g.typeName root, nested)

/-- Collect the objects of schemas. -/
def collect (g : Graph) (schemas : Registry Schema) : Except SchemaError Collected := do
  let (topLevel, nested) ←
    schemas.elements.foldlM (fun (topLevel, nested) s => collectSchema g topLevel nested s) (∅, ∅)
  return { topLevel, all := topLevel.insertAll g.typeName nested }

/-- Convert the schemas to generate, with supplementary schemas that they may extend. -/
def convert (supplementary generated : List Entries) : Build Collected := do
  let supplementary ← parseAll supplementary
  let generated ← parseAll generated
  let all ← MonadExcept.ofExcept (together supplementary generated)
  let joined ← Lineage.resolve all generated
  let collected ← Build.ofGraph fun g => collect g generated
  Build.note (.collectedObjects generated.size supplementary.size joined.length
    collected.topLevel.size collected.all.size)
  return collected

end Conversion

end Schemata
