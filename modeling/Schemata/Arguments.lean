import Schemata.Settings

/-!
# The command line

Flags are given by their full names, a value after an equals sign or as the next argument. Nothing may be given twice
and nothing may stand alone. A value that is given as an argument of its own is only looked at once the next flag or
the end is reached; so a flag that is unknown is reported before anything that is wrong with the value before it.
-/

namespace Schemata

/-- What is asked for on the command line. -/
structure Arguments where
  /-- The file with the settings. -/
  generatorConfig : Option String := none
  /-- The file that lists the schema files. -/
  config : Option String := none
  /-- What the names of the generated files start with. -/
  output : Option String := none
  /-- The package of the runtime. -/
  goextPackage : Option String := none
  /-- The package of the typed wrappers and of the schema names. -/
  goodiesPackage : Option String := none
  /-- The package of the structs. -/
  resourcePackage : Option String := none
  /-- The package of the interfaces. -/
  interfacePackage : Option String := none
  /-- The suffix of the names of structs. -/
  rawSuffix : Option String := none
  /-- The suffix of the names of interfaces. -/
  interfaceSuffix : Option String := none
  /-- Whether to give up on a schema file that cannot be read. -/
  strict : Bool := false
  /-- Whether to write nothing. -/
  dryRun : Bool := false
  /-- Whether to note details. -/
  verbose : Bool := false
deriving DecidableEq, Repr, Inhabited

/-- Why a command line is not carried out. -/
inductive UsageError where
  /-- Help is asked for. -/
  | displayHelp
  /-- The version is asked for. -/
  | displayVersion
  /-- An argument is not known. -/
  | unknownArgument
  /-- A value is missing or empty. -/
  | invalidValue
  /-- A flag is given twice. -/
  | argumentConflict
  /-- A flag without value is given one. -/
  | tooManyValues
deriving DecidableEq, Repr

/-- The code that a run ends with; asking for help or for the version is no failure. -/
def UsageError.exitCode : UsageError → Nat
  | .displayHelp | .displayVersion => 0
  | _ => 2

/-- The flags that take a value. -/
inductive ValueFlag where
  /-- The file with the settings. -/
  | generatorConfig
  /-- The file that lists the schema files. -/
  | config
  /-- What the names of the generated files start with. -/
  | output
  /-- The package of the runtime. -/
  | goextPackage
  /-- The package of the typed wrappers. -/
  | goodiesPackage
  /-- The package of the structs. -/
  | resourcePackage
  /-- The package of the interfaces. -/
  | interfacePackage
  /-- The suffix of the names of structs. -/
  | rawSuffix
  /-- The suffix of the names of interfaces. -/
  | interfaceSuffix
deriving DecidableEq, Repr

/-- The flags that take no value. -/
inductive Switch where
  /-- Give up on a schema file that cannot be read. -/
  | strict
  /-- Write nothing. -/
  | dryRun
  /-- Note details. -/
  | verbose
  /-- Show help. -/
  | help
  /-- Show the version. -/
  | version
deriving DecidableEq, Repr

/-- The flag that takes a value, by its name. -/
def ValueFlag.ofName? : String → Option ValueFlag
  | "generator-config" => some .generatorConfig
  | "config" => some .config
  | "output" => some .output
  | "goext-package" => some .goextPackage
  | "goodies-package" => some .goodiesPackage
  | "resource-package" => some .resourcePackage
  | "interface-package" => some .interfacePackage
  | "raw-suffix" => some .rawSuffix
  | "interface-suffix" => some .interfaceSuffix
  | _ => none

/-- Whether the value of a flag is the path of a file, which is never empty. -/
def ValueFlag.isFile : ValueFlag → Bool
  | .generatorConfig | .config => true
  | _ => false

/-- The flag that takes no value, by its name. -/
def Switch.ofName? : String → Option Switch
  | "strict" => some .strict
  | "dry-run" => some .dryRun
  | "verbose" => some .verbose
  | "help" => some .help
  | "version" => some .version
  | _ => none

/-- The flag that takes no value, by its letter. -/
def Switch.ofLetter? : Char → Option Switch
  | 'v' => some .verbose
  | 'h' => some .help
  | 'V' => some .version
  | _ => none

namespace Arguments

/-- The value that a flag was given. -/
def value? (a : Arguments) : ValueFlag → Option String
  | .generatorConfig => a.generatorConfig
  | .config => a.config
  | .output => a.output
  | .goextPackage => a.goextPackage
  | .goodiesPackage => a.goodiesPackage
  | .resourcePackage => a.resourcePackage
  | .interfacePackage => a.interfacePackage
  | .rawSuffix => a.rawSuffix
  | .interfaceSuffix => a.interfaceSuffix

/-- Give a flag a value. -/
def setValue (a : Arguments) (value : String) : ValueFlag → Arguments
  | .generatorConfig => { a with generatorConfig := some value }
  | .config => { a with config := some value }
  | .output => { a with output := some value }
  | .goextPackage => { a with goextPackage := some value }
  | .goodiesPackage => { a with goodiesPackage := some value }
  | .resourcePackage => { a with resourcePackage := some value }
  | .interfacePackage => { a with interfacePackage := some value }
  | .rawSuffix => { a with rawSuffix := some value }
  | .interfaceSuffix => { a with interfaceSuffix := some value }

/-- Give a flag a value once. The value must be there, and the path of a file must not be empty. -/
def giveValue (a : Arguments) (flag : ValueFlag) : Option String → Except UsageError Arguments
  | none => .error .invalidValue
  | some value =>
    if (a.value? flag).isSome then .error .argumentConflict
    else if flag.isFile && value.isEmpty then .error .invalidValue
    else .ok (a.setValue value flag)

/-- Turn a switch on, once. Help and the version end the reading. -/
def turnOn (a : Arguments) : Switch → Except UsageError Arguments
  | .strict => if a.strict then .error .argumentConflict else .ok { a with strict := true }
  | .dryRun => if a.dryRun then .error .argumentConflict else .ok { a with dryRun := true }
  | .verbose => if a.verbose then .error .argumentConflict else .ok { a with verbose := true }
  | .help => .error .displayHelp
  | .version => .error .displayVersion

/-- A flag whose value is still to be looked at, with the value if it has been given. -/
abbrev Pending := Option (ValueFlag × Option String)

/-- Look at the value of a pending flag. -/
def settle (a : Arguments) : Pending → Except UsageError Arguments
  | none => .ok a
  | some (flag, value) => a.giveValue flag value

/-- Divide a flag at its equals sign, if it has one. -/
def splitFlag (cs : List Char) : String × Option String :=
  let name := String.ofList (cs.takeWhile (· != '='))
  match cs.dropWhile (· != '=') with
  | [] => (name, none)
  | _ :: value => (name, some (String.ofList value))

/-- Read a flag that is given by its name. -/
def readLong (a : Arguments) (pending : Pending) (cs : List Char) : Except UsageError (Arguments × Pending) :=
  let (name, value) := splitFlag cs
  match ValueFlag.ofName? name, Switch.ofName? name, value with
  | some flag, _, none => do return (← a.settle pending, some (flag, none))
  | some flag, _, some value => do
    let a ← a.settle pending
    return (← a.giveValue flag (some value), none)
  | none, some _, some _ => .error .tooManyValues
  | none, some switch, none => do
    let a ← a.settle pending
    return (← a.turnOn switch, none)
  | none, none, _ => .error .unknownArgument

/-- Read switches that are given by their letters. -/
def readLetters (a : Arguments) (pending : Pending) : List Char → Except UsageError (Arguments × Pending)
  | [] => .ok (a, pending)
  | c :: cs =>
    match Switch.ofLetter? c with
    | none => .error .unknownArgument
    | some switch => do
      let a ← a.settle pending
      readLetters (← a.turnOn switch) none cs

/-- Read the arguments from the left. -/
def readFrom (a : Arguments) (pending : Pending) : List String → Except UsageError Arguments
  | [] => a.settle pending
  | argument :: rest =>
    match argument.toList with
    | ['-', '-'] => if rest.isEmpty then a.settle pending else .error .unknownArgument
    | '-' :: '-' :: cs => do
      let (a, pending) ← a.readLong pending cs
      a.readFrom pending rest
    | '-' :: c :: cs => do
      let (a, pending) ← a.readLetters pending (c :: cs)
      a.readFrom pending rest
    | _ =>
      match pending with
      | some (flag, none) => a.readFrom (some (flag, some argument)) rest
      | _ => .error .unknownArgument

/-- Read a command line. -/
def parse (arguments : List String) : Except UsageError Arguments :=
  readFrom {} none arguments

/-- The settings with the flags of a command line in place of their values. -/
def override (a : Arguments) (s : Settings) : Settings where
  config := a.config.or s.config
  output := a.output.getD s.output
  goextPackage := a.goextPackage.getD s.goextPackage
  goodiesPackage := a.goodiesPackage.getD s.goodiesPackage
  resourcePackage := a.resourcePackage.getD s.resourcePackage
  interfacePackage := a.interfacePackage.getD s.interfacePackage
  rawSuffix := a.rawSuffix.getD s.rawSuffix
  interfaceSuffix := a.interfaceSuffix.getD s.interfaceSuffix
  skipPolicy := if a.strict then .fail else s.skipPolicy

/-- Which events are shown. -/
def logDirective (a : Arguments) : String :=
  if a.verbose then "schemagen=debug" else "schemagen=info"

end Arguments

end Schemata
