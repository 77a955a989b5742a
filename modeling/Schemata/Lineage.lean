import Schemata.Journal
import Schemata.Order
import Schemata.Schema

/-!
# Lineage

Schemas extend other schemas. `Lineage.discover` finds all schemas that a set of schemas extends, directly or
through others; `Lineage.order` puts them into an order in which bases come first; and `Lineage.resolve` joins each
schema with its bases in that order, so that a schema inherits what its bases have inherited.
-/

namespace Schemata

/-- What a conversion works on: the graph so far, and what happened so far. -/
structure Workspace where
  /-- The graph. -/
  graph : Graph := {}
  /-- The events, in order. -/
  journal : List Event := []
deriving Inhabited

/-- A step of a conversion. What it did to the workspace stays if it fails. -/
abbrev Build := ExceptT SchemaError (StateM Workspace)

namespace Build

/-- Note an event. -/
def note (event : Event) : Build Unit :=
  modify fun w => { w with journal := w.journal ++ [event] }

/-- Work on the graph, unless that fails. -/
def onGraph {α : Type} (f : Graph → Except SchemaError (Graph × α)) : Build α := do
  let (graph, a) ← MonadExcept.ofExcept (f (← get).graph)
  modify fun w => { w with graph }
  return a

/-- Read off the graph. -/
def ofGraph {α : Type} (f : Graph → Except SchemaError α) : Build α := do
  MonadExcept.ofExcept (f (← get).graph)

end Build

namespace Lineage

/-- The schemas that a schema extends. Of several that are not given the last is reported. -/
def basesIn (all : Registry Schema) (s : Schema) : Except SchemaError (List Schema) :=
  match s.bases.reverse.find? fun base => !all.contains base with
  | some base => .error (.unknownBase s.id base)
  | none => .ok (s.bases.filterMap all.get?)

/-- Whether a schema with an identifier is in a list. -/
def holds (schemas : List Schema) (id : String) : Bool :=
  schemas.any fun s => s.id == id

/-- Go through the pending schemas, and through their bases before the rest of them, for a number of steps. The found
schemas are returned in the order they are found. -/
def discoverWithin (all : Registry Schema) :
    Nat → (found pending : List Schema) → Except SchemaError (List Schema)
  | _, found, [] => .ok found.reverse
  | 0, found, _ => .ok found.reverse
  | steps + 1, found, s :: pending =>
    if holds found s.id then discoverWithin all steps found pending
    else do
      let bases ← basesIn all s
      discoverWithin all steps (s :: found) (bases ++ pending)

/-- The most schemas that can ever become pending: the roots, and every mention of a base. -/
def mentions (all roots : Registry Schema) : Nat :=
  roots.size + ((all.elements ++ roots.elements).flatMap Schema.bases).length

/-- The roots and all schemas that they extend, directly or through others, in the order they are found. -/
def discover (all roots : Registry Schema) : Except SchemaError (List Schema) :=
  discoverWithin all (mentions all roots) [] roots.elements

/-- The schemas among `found` that extend a schema, by identifier. -/
def extending (found : List Schema) (base : Schema) : List Schema :=
  (Registry.ofList Schema.id found).elements.filter fun s => s.bases.contains base.id

/-- The schemas among `found` that a schema extends, in the order it lists them. -/
def extended (found : List Schema) (s : Schema) : List Schema :=
  s.bases.filterMap fun base => found.find? fun t => t.id == base

/-- The roots and all schemas that they extend, bases first. -/
def order (all roots : Registry Schema) : Except SchemaError (List Schema) := do
  let found ← discover all roots
  (Order.predecessorsFirst (extending found) (extended found) found).mapError fun s =>
    .cyclicInheritance s.id

/-- Join a schema with its bases, if it has any. -/
def joinBases (all : Registry Schema) (s : Schema) : Build Unit := do
  let bases := s.bases.filterMap all.get?
  unless bases.isEmpty do
    let inherited ← Build.onGraph fun g => s.join g bases
    Build.note (.joinedBases s.id (bases.map Schema.id) inherited)

/-- Join the roots and all schemas that they extend with their bases, bases first. The order is returned. -/
def resolve (all roots : Registry Schema) : Build (List Schema) := do
  let schemas ← MonadExcept.ofExcept (order all roots)
  schemas.forM (joinBases all)
  Build.note (.resolvedInheritance (schemas.map Schema.id))
  return schemas

end Lineage

end Schemata
