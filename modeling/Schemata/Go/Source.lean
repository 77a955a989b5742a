import Schemata.Conversion
import Schemata.Go.Declaration
import Schemata.Go.Wrapper
import Schemata.Settings

/-!
# Generated sources

The declarations for all collected objects, in groups, and the files that the groups go into. A group without text
makes no file.
-/

namespace Schemata.Go

/-- The generated declarations. -/
structure Sources where
  /-- The interfaces that list accessors. -/
  rawInterfaces : List String := []
  /-- The mutable interfaces. -/
  interfaces : List String := []
  /-- The structs. -/
  structs : List String := []
  /-- The accessors. -/
  implementations : List String := []
  /-- The constructors. -/
  constructors : List String := []
  /-- The typed wrappers for interfaces. -/
  wrappers : List String := []
  /-- The typed wrappers for structs. -/
  rawWrappers : List String := []
  /-- The constants with the names of schemas. -/
  names : List String := []
deriving DecidableEq, Repr, Inhabited

/-- The type that the wrappers of a record return. -/
def wrapperType (settings : Settings) (r : RecordName) (raw : Bool) : String :=
  if raw then "*" ++ settings.resourcePackage ++ "." ++ r.name settings.rawSuffix
  else settings.interfacePackage ++ "." ++ r.interfaceType settings.rawSuffix

/-- The typed wrappers of a record. A record without members has none. -/
def wrappersOf (settings : Settings) (raw : Bool) (r : Record) : List String :=
  if r.isEmpty then []
  else WrapperFlavor.all raw settings.goextPackage (r.name.name settings.rawSuffix)
    (wrapperType settings r.name raw)

/-- The declarations for the root records and for all records. Records without members are not declared. -/
def generate (settings : Settings) (topLevel all : List Record) : Sources :=
  let declared := all.filter fun r => !r.isEmpty
  let interfaceSuffix := settings.effectiveInterfaceSuffix
  let typeSuffix := settings.rawSuffix
  { rawInterfaces := declared.map fun r => r.interface interfaceSuffix
    interfaces := declared.map fun r => r.mutableInterface interfaceSuffix typeSuffix
    structs := declared.map fun r => r.struct typeSuffix
    implementations := declared.map fun r => r.implementation interfaceSuffix typeSuffix
    constructors := declared.map fun r => r.constructor typeSuffix
    wrappers := topLevel.flatMap (wrappersOf settings false)
    rawWrappers := topLevel.flatMap (wrappersOf settings true)
    names := topLevel.map fun r => r.schemaName settings.goextPackage }

/-- The records of objects. -/
def records (g : Graph) (objects : Registry ItemId) : List Record :=
  objects.elements.filterMap fun i => (g.object? i).map g.record

/-- The declarations for collected objects. -/
def generateCollected (settings : Settings) (g : Graph) (collected : Collected) : Sources :=
  generate settings (records g collected.topLevel) (records g collected.all)

/-- The event of having generated sources. -/
def Sources.event (s : Sources) : Event :=
  .generatedSources s.structs.length (s.wrappers.length + s.rawWrappers.length) s.names.length

/-- A generated file. -/
structure SourceFile where
  /-- The name, without what all names start with. -/
  name : String
  /-- The package that it belongs to. -/
  package : String
  /-- The text. -/
  content : String
deriving DecidableEq, Repr

/-- The text of a file: the package, then the chunks that are not empty, with a line end between them. -/
def assemble (package : String) (chunks : List String) : String :=
  let chunks := chunks.filter fun chunk => !chunk.isEmpty
  if chunks.isEmpty then "" else "package " ++ package ++ "\n\n" ++ "\n".intercalate chunks

/-- The generated files. -/
def Sources.files (s : Sources) (settings : Settings) : List SourceFile :=
  let layout :=
    [("generated_interface.go", settings.interfacePackage, s.rawInterfaces),
     ("interface.go", settings.interfacePackage, s.interfaces),
     ("raw.go", settings.resourcePackage, s.structs),
     ("implementation.go", settings.resourcePackage, s.implementations),
     ("constructors.go", settings.resourcePackage, s.constructors),
     ("crud.go", settings.goodiesPackage, s.wrappers),
     ("raw_crud.go", settings.goodiesPackage, s.rawWrappers),
     ("names.go", settings.goodiesPackage, [constBlock s.names])]
  layout.filterMap fun (name, package, chunks) =>
    let content := assemble package chunks
    if content.isEmpty then none else some { name, package, content }

/-- The path of a file, or none if it is to be printed. -/
def SourceFile.path? (f : SourceFile) (output : String) : Option String :=
  let path := Naming.joinIfAny output f.name
  if path.isEmpty then none else some path

end Schemata.Go
