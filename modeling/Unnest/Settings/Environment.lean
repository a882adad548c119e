import Unnest.Environment.Basic
import Unnest.Settings.Node

/-!
# Settings from the environment

A variable whose name starts with `FLATTENER__`, in upper or lower case, is a setting. Two underscores
in the rest of the name separate the steps of a path. Values are plain text. All variables are looked
through for that, and there is no layer if one of them is no text.
-/

namespace Unnest.Settings
open Text

/-- What the name of a setting starts with, in lower case. -/
def marker : String := "flattener__"

/-- A name with every two underscores replaced by a point. -/
def pointed : List Char → List Char
  | '_' :: '_' :: rest => '.' :: pointed rest
  | c :: rest => c :: pointed rest
  | [] => []

/-- The path that the name of a variable spells, if it is a setting. -/
def keyOf? (name : String) : Option String :=
  let cs := (lowercase name).toList
  if marker.toList.isPrefixOf cs then some (String.ofList (pointed (cs.drop marker.length)))
  else none

/-- The variables of an environment and their values, if all of them are texts. -/
def textsOf? (environment : Environment) : Option (List (String × String)) :=
  environment.mapM fun (name, value) => do return (← Symbol.text? name, ← Symbol.text? value)

/-- The layer of settings that an environment holds, if all its variables are texts. -/
def layerOfEnvironment? (environment : Environment) : Option (List (String × Node)) :=
  (textsOf? environment).map fun texts => Entries.ofList (texts.filterMap fun (name, value) =>
    (keyOf? name).map fun key => (key, .text value))

end Unnest.Settings
