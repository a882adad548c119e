import Unnest.CommandLine.Input
import Unnest.Environment.File
import Unnest.Settings.File

/-!
# Runs

A run reads the file of variables, its arguments and its settings, in this order, and then flattens its
inputs. Every way in which it may end is an `Outcome`, which determines the exit code and what is
printed.
-/

namespace Unnest.CommandLine

/-- Why a run breaks down. -/
inductive Breakdown where
  /-- The file of variables asks for a value that no variable can have. -/
  | variableValue
  /-- Loading the settings breaks down. -/
  | settings
  /-- The log cannot be written. -/
  | logFile
  /-- There is no cache with a lifetime as long as that. -/
  | cacheLifetime
deriving DecidableEq, Repr

/-- How a run ends. -/
inductive Outcome where
  /-- It prints a text that was asked for. -/
  | answered (text : String)
  | misused (error : UsageError)
  /-- The settings cannot be read. -/
  | unsettled
  | broken (cause : Breakdown)
  /-- It has been through all its inputs. -/
  | complete (inputs failed : Nat)
deriving DecidableEq, Repr

namespace Outcome

def exitCode : Outcome → UInt8
  | answered _ => 0
  | misused _ => 2
  | unsettled => 1
  | broken _ => 101
  | complete _ failed => if failed = 0 then 0 else 1

/-- What a run prints to the standard output. -/
def output : Outcome → String
  | answered text => text
  | _ => ""

/-- The line that says why a run failed, unless it was misused or broke down. -/
def errorLine? : Outcome → Option String
  | unsettled => some "Error: loading configuration"
  | complete inputs failed =>
    if failed = 0 then none
    else some ("Error: " ++ toString failed ++ " of " ++ toString inputs ++ " inputs failed")
  | _ => none

end Outcome

def variableFile : String := ".env"

/-- The variable that names the asset unless the arguments do. -/
def assetVariable : String := "FLATTENER_ASSET_ID"

variable {m : Type → Type} [Monad m] [FileAccess m]

/-- The environment with what the file of variables adds, if there is one. -/
def addVariableFile (environment : Environment) : m (Option Environment) := do
  match ← FileAccess.read variableFile with
  | none => return some environment
  | some content => return environment.addFile? content

/-- The asset that holds if none is named, if it is a text. -/
def assetOf? (environment : Environment) : Option String :=
  match Entries.get? environment (Text.Symbol.ofString assetVariable) with
  | none => some ""
  | some value => Text.Symbol.text? value

/-- The path of the log of a day. -/
def LogSettings.path (directory filePrefix day : String) : String :=
  FileName.join directory (if filePrefix.isEmpty then day else filePrefix ++ "." ++ day)

/-- Lets reports go to the log of a day, if there is a directory for logs. -/
def startLog (settings : LogSettings) (day : String) : m Bool := do
  match settings.directory with
  | none => return true
  | some directory =>
    let path := LogSettings.path directory settings.filePrefix day
    let _ ← FileAccess.makeDirectories (m := m) (FileName.directory path)
    FileAccess.reportTo path

/-- Flattens the inputs of a run with its settings. -/
def runWith (settings : Settings) (day : String) (arguments : Arguments) : m Outcome := do
  if !(← startLog settings.log day) then return .broken .logFile
  match Cache.ofLimits? settings.lifetime settings.capacity with
  | none => return .broken .cacheLifetime
  | some cache =>
    FileAccess.report (.started arguments.inputs.length)
    let describer := settings.catalog.describer.cached
    let failed ← flattenInputs describer settings.options arguments arguments.inputs (cache, ())
    if failed = 0 then FileAccess.report .finished
    return .complete arguments.inputs.length failed

/-- A whole run on a day, given as text, with an environment and arguments. -/
def run (loader : Settings.Loader) (day : String) (environment : Environment) (arguments : List String) :
    m Outcome := do
  match ← addVariableFile environment with
  | none => return .broken .variableValue
  | some environment =>
    let assetId := assetOf? environment
    match Request.parse assetId arguments with
    | .error error => return .misused error
    | .ok .help => return .answered (helpText assetId)
    | .ok .version => return .answered versionLine
    | .ok (.flatten arguments) =>
      match ← Settings.load loader arguments.config environment with
      | .error .refused => return .unsettled
      | .error .broken => return .broken .settings
      | .ok settings => runWith settings day arguments

end Unnest.CommandLine
