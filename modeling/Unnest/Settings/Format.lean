import Unnest.FileName
import Unnest.Json.Reader
import Unnest.Settings.Node
import Unnest.Toml.Document

/-!
# Formats of files of settings

Settings may be written in several formats; the extension of the name of a file says in which. TOML and JSON are
read here. How the others are read is left to a `Loader`, and so is what else may differ from one run to the next:
which extension is tried first, in which order the entries of tables are taken, and for how many values there is
room in a list. What holds of every loader does not depend on any of that.
-/

namespace Unnest.Settings
open Text

/-- How a file of settings is written. -/
inductive FileFormat where
  | toml
  | json
  | yaml
  | ini
  | ron
  | json5
deriving DecidableEq, Repr

/-- Why there are no settings. -/
inductive Failure where
  /-- They are not there, not well-formed or of the wrong shape. -/
  | refused
  /-- Reading them breaks down. -/
  | broken
deriving DecidableEq, Repr

/-- What was found; otherwise it is a failure of a kind. -/
def Failure.unless {α : Type} (failure : Failure) : Option α → Except Failure α
  | some a => .ok a
  | none => .error failure

mutual

/-- A JSON value as a value of a layer. -/
def Node.ofJson : Json → Node
  | .null => .nothing
  | .bool b => .bool b
  | .number (.natural n) => .integer n.toNat
  | .number (.negative n) => .integer n.toInt
  | .number (.real x) => .real x
  | .string s => .text s
  | .array items => .list (ofItems items)
  | .object members => .table (ofMembers members)

/-- JSON values as values of a layer. -/
def Node.ofItems : List Json → List Node
  | [] => []
  | item :: items => ofJson item :: ofItems items

/-- The members of a JSON object as entries of a layer. -/
def Node.ofMembers : List (String × Json) → List (String × Node)
  | [] => []
  | (key, value) :: members => (key, ofJson value) :: ofMembers members

end

namespace FileFormat

/-- All formats. -/
def all : List FileFormat := [toml, json, yaml, ini, ron, json5]

/-- The extensions that name a format. -/
def extensions : FileFormat → List String
  | toml => ["toml"]
  | json => ["json"]
  | yaml => ["yaml", "yml"]
  | ini => ["ini"]
  | ron => ["ron"]
  | json5 => ["json5"]

/-- The format of the file at a path. -/
def ofPath? (path : String) : Option FileFormat :=
  (FileName.extension? path).bind fun extension => all.find? fun format => format.extensions.contains extension

end FileFormat

/-- How settings are loaded, as far as that is open. -/
structure Loader where
  /-- The formats, in the order in which their extensions are tried. -/
  formats : List FileFormat
  complete : ∀ format, format ∈ formats
  /-- The layer in a text whose format is neither TOML nor JSON. -/
  read : FileFormat → List Char → Except Failure (List (String × Node))
  /-- The order in which entries are taken. -/
  order : Order
  /-- The number of values that a list can hold at most. For fewer, memory is taken to suffice. -/
  room : Nat

namespace Loader

/-- The number of values of 96 bytes that the largest piece of memory holds. -/
def largestRoom : Nat := (Nat.pow 2 63 - 1) / 96

/-- A loader that reads TOML and JSON only and takes everything as it is written. -/
def standard : Loader where
  formats := FileFormat.all
  complete format := by cases format <;> decide
  read _ _ := .error .refused
  order := .written
  room := largestRoom

/-- The layer of settings that a text of a format holds. -/
def parse (loader : Loader) (text : List Char) : FileFormat → Except Failure (List (String × Node))
  | .toml => Failure.refused.unless (Toml.parse? text)
  | .json =>
    match Json.parse (text.map .char) with
    | .ok (.object members) => .ok (Node.ofMembers members)
    | _ => .error .refused
  | format => loader.read format text

/-- The files that a path may mean if an extension is missing, in the order in which they are tried. -/
def candidates (loader : Loader) (path : String) : List (String × FileFormat) :=
  loader.formats.flatMap fun format =>
    (format.extensions.filterMap (FileName.extended? path)).map fun extended => (extended, format)

end Loader

end Unnest.Settings
