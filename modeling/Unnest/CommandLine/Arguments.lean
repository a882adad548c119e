/-!
# Arguments

The arguments of a run are the paths of its inputs, options with their values, and the flags that ask for
the version or for help. They are read from left to right, and the first thing that is wrong or that asks
for an answer ends the reading (`Arguments.parse`). The value of an option is the next argument or follows
an equals sign; behind a short option it may also follow at once. After two hyphens everything is an
input.
-/

namespace Unnest.CommandLine

/-- The forms of output. -/
inductive OutputFormat where
  | parquet
  | json
deriving DecidableEq, Repr

/-- The options that take a value. -/
inductive Setting where
  | assetId
  | config
  | outputDirectory
  | format
  | threads
deriving DecidableEq, Repr

/-- What is wrong with arguments. -/
inductive UsageError where
  | unknownOption (argument : String)
  | valueMissing (setting : Setting)
  | valueInvalid (setting : Setting) (value : String)
  | valueUnneeded (flag value : String)
  | repeated (setting : Setting)
  | inputInvalid
  | inputMissing
  /-- The variable that stands for an option is no text. -/
  | variableInvalid (setting : Setting)
deriving DecidableEq, Repr

/-- What a run is asked to do. -/
structure Arguments where
  inputs : List String
  assetId : String := ""
  config : Option String := none
  outputDirectory : String := "out"
  format : OutputFormat := .parquet
  /-- The number of workers, on which the results do not depend. -/
  threads : Option Nat := none
deriving DecidableEq, Repr

/-- What arguments ask for. -/
inductive Request where
  | help
  | version
  | flatten (arguments : Arguments)
deriving DecidableEq, Repr

namespace OutputFormat

def name : OutputFormat → String
  | parquet => "parquet"
  | json => "json"

def ofName? (s : String) : Option OutputFormat := [parquet, json].find? fun format => format.name = s

end OutputFormat

namespace Setting

/-- All options that take a value. -/
def all : List Setting := [assetId, config, outputDirectory, format, threads]

/-- The name of an option, which stands behind two hyphens. -/
def name : Setting → String
  | assetId => "asset-id"
  | config => "config"
  | outputDirectory => "out-dir"
  | format => "format"
  | threads => "threads"

def ofName? (s : String) : Option Setting := all.find? fun setting => setting.name = s

end Setting

def UsageError.message : UsageError → String
  | unknownOption argument => "unexpected argument '" ++ argument ++ "' found"
  | valueMissing setting => "a value is required for '--" ++ setting.name ++ "' but none was supplied"
  | valueInvalid setting value => "invalid value '" ++ value ++ "' for '--" ++ setting.name ++ "'"
  | valueUnneeded flag value => "unexpected value '" ++ value ++ "' for '--" ++ flag ++ "' found"
  | repeated setting => "the argument '--" ++ setting.name ++ "' cannot be used multiple times"
  | inputInvalid => "a value is required for '<INPUTS>...' but none was supplied"
  | inputMissing => "the following required arguments were not provided: <INPUTS>..."
  | variableInvalid setting => "the variable for '--" ++ setting.name ++ "' is no text"

/-- A number below `2 ^ 64` in decimal digits, which may have a plus sign. -/
def natural? (s : String) : Option Nat :=
  let digits := match s.toList with
    | '+' :: rest => rest
    | rest => rest
  let n := digits.foldl (fun n d => n * 10 + (d.toNat - '0'.toNat)) 0
  if !digits.isEmpty && digits.all Char.isDigit && n < Nat.pow 2 64 then some n else none

/-- What has been read of the arguments. -/
structure Draft where
  /-- The inputs, last one first. -/
  inputs : List String := []
  assetId : Option String := none
  config : Option String := none
  outputDirectory : Option String := none
  format : Option OutputFormat := none
  threads : Option Nat := none

namespace Draft

/-- The draft with an option set. An option is set once, and its value has to be one of its kind: only an
asset identifier may be empty. -/
def set (draft : Draft) (setting : Setting) (value : String) : Except UsageError Draft :=
  let once {α : Type} (known : Option α) (read : Option α) (change : α → Draft) : Except UsageError Draft :=
    if known.isSome then .error (.repeated setting)
    else
      match read with
      | none => .error (.valueInvalid setting value)
      | some a => .ok (change a)
  let nonempty : Option String := if value.isEmpty then none else some value
  match setting with
  | .assetId => once draft.assetId (some value) fun id => { draft with assetId := some id }
  | .config => once draft.config nonempty fun path => { draft with config := some path }
  | .outputDirectory =>
    once draft.outputDirectory nonempty fun path => { draft with outputDirectory := some path }
  | .format => once draft.format (OutputFormat.ofName? value) fun f => { draft with format := some f }
  | .threads => once draft.threads (natural? value) fun n => { draft with threads := some n }

/-- The draft with one more input. -/
def addInput (draft : Draft) (path : String) : Except UsageError Draft :=
  if path.isEmpty then .error .inputInvalid else .ok { draft with inputs := path :: draft.inputs }

/-- The arguments that have been read; there has to be an input. `assetId` is what holds if no asset was
named, if that is a text. -/
def finish (draft : Draft) (assetId : Option String) : Except UsageError Request :=
  match draft.assetId.or assetId with
  | none => .error (.variableInvalid .assetId)
  | some assetId =>
    if draft.inputs.isEmpty then .error .inputMissing
    else .ok (.flatten {
      inputs := draft.inputs.reverse
      assetId
      config := draft.config
      outputDirectory := draft.outputDirectory.getD "out"
      format := draft.format.getD .parquet
      threads := draft.threads })

end Draft

/-- One argument by its form. -/
inductive Argument where
  /-- Two hyphens alone. -/
  | separator
  | input (path : String)
  /-- A long option and the value behind an equals sign. -/
  | long (name : String) (value : Option String)
  /-- A short option and what follows it. -/
  | short (name : Char) (rest : List Char)
deriving DecidableEq, Repr

def Argument.ofString (s : String) : Argument :=
  match s.toList with
  | ['-', '-'] => separator
  | '-' :: '-' :: cs =>
    let value := match cs.dropWhile (· ≠ '=') with
      | [] => none
      | _ :: value => some (String.ofList value)
    long (String.ofList (cs.takeWhile (· ≠ '='))) value
  | '-' :: c :: cs => short c cs
  | _ => input s

/-- What one argument asks for. -/
inductive Demand where
  | help
  | version
  | separator
  | input (path : String)
  | set (setting : Setting) (value : String)
  /-- An option whose value is the next argument. -/
  | await (setting : Setting)
deriving DecidableEq, Repr

/-- A flag, which has no value. -/
def Demand.flag (demand : Demand) (name : String) : Option String → Except UsageError Demand
  | none => .ok demand
  | some value => .error (.valueUnneeded name value)

def Demand.ofString (s : String) : Except UsageError Demand :=
  match Argument.ofString s with
  | .separator => .ok separator
  | .input path => .ok (input path)
  | .long "help" value => help.flag "help" value
  | .long "version" value => version.flag "version" value
  | .long name value =>
    match Setting.ofName? name, value with
    | none, _ => .error (.unknownOption s)
    | some setting, none => .ok (await setting)
    | some setting, some value => .ok (set setting value)
  | .short 'h' _ => .ok help
  | .short 'V' _ => .ok version
  | .short 'c' [] => .ok (await .config)
  | .short 'c' ('=' :: value) => .ok (set .config (String.ofList value))
  | .short 'c' value => .ok (set .config (String.ofList value))
  | .short _ _ => .error (.unknownOption s)

/-- Reads arguments into a draft. -/
def Draft.read (draft : Draft) (assetId : Option String) : List String → Except UsageError Request
  | [] => draft.finish assetId
  | argument :: rest => do
    match ← Demand.ofString argument with
    | .help => return .help
    | .version => return .version
    | .separator => (← rest.foldlM Draft.addInput draft).finish assetId
    | .input path => (← draft.addInput path).read assetId rest
    | .set setting value => (← draft.set setting value).read assetId rest
    | .await setting =>
      match rest with
      | [] => .error (.valueMissing setting)
      | value :: rest =>
        match Argument.ofString value with
        | .input value => (← draft.set setting value).read assetId rest
        | _ => .error (.valueMissing setting)

/-- What arguments ask for. `assetId` is the asset if none is named, if it is a text. -/
def Request.parse (assetId : Option String) (arguments : List String) : Except UsageError Request :=
  Draft.read {} assetId arguments

/-- The name of the program and its version. -/
def versionLine : String := "frame_flattener 0.1.0\n"

/-- The text of help, which shows the asset that holds if none is named. -/
def helpText (assetId : Option String) : String :=
  "Flatten JSON inference payloads in time-series frames into typed columns\n\n"
    ++ "Usage: frame-flattener [OPTIONS] <INPUTS>...\n\n"
    ++ "Arguments:\n"
    ++ "  <INPUTS>...  JSON files, each holding an array of frames\n\n"
    ++ "Options:\n"
    ++ "      --asset-id <ASSET_ID>  Asset whose model supplies the property names"
    ++ " [env: FLATTENER_ASSET_ID=" ++ assetId.getD "\uFFFD" ++ "] [default: ]\n"
    ++ "  -c, --config <CONFIG>      TOML configuration file\n"
    ++ "      --out-dir <OUT_DIR>    [default: out]\n"
    ++ "      --format <FORMAT>      [default: parquet] [possible values: parquet, json]\n"
    ++ "      --threads <THREADS>    Worker threads for processing input files concurrently\n"
    ++ "  -h, --help                 Print help\n"
    ++ "  -V, --version              Print version\n"

end Unnest.CommandLine
