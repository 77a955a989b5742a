import Schemata.Document
import Schemata.Naming

/-!
# Settings of the generator

The settings say where the list of schemas is, where the output goes, and how packages and types are named. They can
be read from a document, which must be a mapping with known keys only; a key that is missing leaves its default. Where
a setting is a text, every value that is written on its own is taken for the text it is written as.
-/

namespace Schemata

/-- What to do about a listed schema file that cannot be read. -/
inductive SkipPolicy where
  /-- Leave it out. -/
  | skip
  /-- Give up. -/
  | fail
deriving DecidableEq, Repr, Inhabited

/-- The settings of the generator. -/
structure Settings where
  /-- The file that lists the schema files. -/
  config : Option String := none
  /-- What the names of the generated files start with; without it they are printed. -/
  output : String := ""
  /-- The package of the runtime. -/
  goextPackage : String := "goext"
  /-- The package of the typed wrappers and of the schema names. -/
  goodiesPackage : String := "goodies"
  /-- The package of the structs, their accessors and their constructors. -/
  resourcePackage : String := "resources"
  /-- The package of the interfaces. -/
  interfacePackage : String := "esi"
  /-- The suffix of the names of structs. -/
  rawSuffix : String := "raw"
  /-- The suffix of the names of the interfaces that list accessors, after the suffix of structs. -/
  interfaceSuffix : String := "interface"
  /-- What to do about a listed schema file that cannot be read. -/
  skipPolicy : SkipPolicy := .skip
deriving DecidableEq, Repr, Inhabited

namespace Settings

/-- The whole suffix of the names of the interfaces that list accessors. -/
def effectiveInterfaceSuffix (s : Settings) : String :=
  Naming.join s.rawSuffix s.interfaceSuffix

/-- The policy that a word stands for. -/
def policyOfWord? : String → Option SkipPolicy
  | "skip" => some .skip
  | "fail" => some .fail
  | _ => none

/-- The policy of a value: its word stands alone, or as the tag of the null. -/
def policy? : Document → Option SkipPolicy
  | .text word => policyOfWord? word
  | .tagged word .null => policyOfWord? word
  | _ => none

/-- The path of a value. The null is no path, but under a tag it is the text of the null. -/
def path? : Document → Option (Option String)
  | .null => some none
  | value => value.plainText?.map some

/-- Change one setting. -/
def set? (s : Settings) (key : String) (value : Document) : Option Settings :=
  match key with
  | "config" => (path? value).map fun path => { s with config := path }
  | "output" => value.plainText?.map fun text => { s with output := text }
  | "goext_package" => value.plainText?.map fun text => { s with goextPackage := text }
  | "goodies_package" => value.plainText?.map fun text => { s with goodiesPackage := text }
  | "resource_package" => value.plainText?.map fun text => { s with resourcePackage := text }
  | "interface_package" => value.plainText?.map fun text => { s with interfacePackage := text }
  | "raw_suffix" => value.plainText?.map fun text => { s with rawSuffix := text }
  | "interface_suffix" => value.plainText?.map fun text => { s with interfaceSuffix := text }
  | "skip_policy" => (policy? value).map fun policy => { s with skipPolicy := policy }
  | _ => none

/-- The settings of a document. It must be a mapping, its keys known and each given once. -/
def ofDocument? (d : Document) : Option Settings := do
  let entries ← d.entries?
  let named ← entries.mapM fun (key, value) => key.text?.map fun name => (name, value)
  if (named.map Prod.fst).Nodup then
    named.foldlM (fun s (name, value) => s.set? name value) {}
  else none

end Settings

end Schemata
