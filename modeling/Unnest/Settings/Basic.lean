import Unnest.Decimal.Double
import Unnest.Decimal.Notation
import Unnest.Describe.Cache
import Unnest.Describe.Catalog
import Unnest.Options
import Unnest.Settings.Node

/-!
# Settings

The settings of the program: the options of flattening, the limits of the cache, the catalog and where
to log. They are read from a table whose values are converted where that is possible: a text is also read
from a number or a truth value, a whole number also from a text. A section or a key that is absent keeps
its default, and keys that are not settings do not matter. A section may be a list of its values in the
order of its keys.
-/

namespace Unnest
open Text

/-- Where and under which name the log is written. -/
structure LogSettings where
  /-- The directory of the log files; without one the log goes to the error output. -/
  directory : Option String := none
  filePrefix : String := "flattener.log"
deriving DecidableEq, Repr

/-- The settings of the program. -/
structure Settings where
  options : Options := {}
  /-- The seconds for which a cached answer is valid. -/
  lifetime : Nat := Cache.defaultLifetime
  /-- The number of cached answers. -/
  capacity : Nat := Cache.defaultCapacity
  catalog : Catalog := {}
  log : LogSettings := {}
deriving DecidableEq, Repr

namespace Settings

/-- The layout of doubles that become texts: no power of ten and no fraction that is zero. -/
def doubleLayout : Decimal.Layout := ⟨none, false⟩

namespace Node

def toText? : Node → Option String
  | text s => some s
  | integer n => some (toString n)
  | real x =>
    some (if x.isFinite then String.ofList (doubleLayout.text x)
      else if x.isNaN then "NaN" else if 0.0 < x then "inf" else "-inf")
  | bool b => some (if b then "true" else "false")
  | _ => none

/-- The number that decimal digits spell, after an optional plus sign, if it is below `2 ^ 64`. -/
def digits? (cs : List Char) : Option Nat :=
  let cs := match cs with
    | '+' :: rest => rest
    | rest => rest
  let n := cs.foldl (fun n d => n * 10 + (d.toNat - '0'.toNat)) 0
  if !cs.isEmpty && cs.all Char.isDigit && n < Nat.pow 2 64 then some n else none

/-- The whole number that a text gives: a number, or a truth value in words. -/
def wordNumber? (s : String) : Option Nat :=
  match lowercase s with
  | "true" | "on" | "yes" => some 1
  | "false" | "off" | "no" => some 0
  | _ => digits? s.toList

def toNatural? : Node → Option Nat
  | integer n => if 0 ≤ n then some n.toNat else none
  | real x => some (Decimal.roundHalfUp x)
  | bool b => some (if b then 1 else 0)
  | text s => wordNumber? s
  | _ => none

def toTexts? : Node → Option (List String)
  | list items => items.mapM toText?
  | _ => none

def toEntries? {α : Type} (value : Node → Option α) : Node → Option (Entries String α)
  | table entries => entries.mapM fun (key, node) => do return (key, ← value node)
  | _ => none

/-- The segment rule that a value names, in upper or lower case: by a text or by the only key of a
table. -/
def toSegmentRule? : Node → Option SegmentRule
  | text s => SegmentRule.ofName? (lowercase s)
  | table [(key, _)] => SegmentRule.ofName? (lowercase key)
  | _ => none

/-- A text that may be missing. -/
def toOptionalText? : Node → Option (Option String)
  | nothing => some none
  | value => value.toText?.map some

/-- A section as a function from its keys to their values: a table, or a list of the values of the first
keys. -/
def section? (keys : List String) : Node → Option (String → Option Node)
  | table entries => some (Entries.get? entries)
  | list items => some (Entries.get? (keys.zip items))
  | _ => none

/-- The value of a key, or its default if it is absent. -/
def orDefault {α : Type} (default : α) (value : Option Node) (read : Node → Option α) : Option α :=
  match value with
  | none => some default
  | some node => read node

def toOptions? (node : Node) : Option Options := do
  let key ← node.section? Options.fieldNames
  let d : Options := {}
  return {
    excludedKeys := ← orDefault d.excludedKeys (key "excluded_keys") toTexts?
    expectedKeys := ← orDefault d.expectedKeys (key "expected_keys") toTexts?
    contributionPrefix := ← orDefault d.contributionPrefix (key "contrib_prefix") toText?
    anomalyPrefix := ← orDefault d.anomalyPrefix (key "anomaly_prefix") toText?
    segmentRule := ← orDefault d.segmentRule (key "segment_rule") toSegmentRule? }

/-- The lifetime and the capacity of the cache in a section. -/
def toLimits? (node : Node) : Option (Nat × Nat) := do
  let key ← node.section? ["ttl_secs", "capacity"]
  let lifetime ← orDefault Cache.defaultLifetime (key "ttl_secs") toNatural?
  let capacity ← orDefault Cache.defaultCapacity (key "capacity") toNatural?
  return (lifetime, capacity)

def toCatalog? (node : Node) : Option Catalog := do
  let key ← node.section? Catalog.fieldNames
  let assets ← orDefault [] (key "assets") (toEntries? toText?)
  let models ← orDefault [] (key "models") (toEntries? (toEntries? toText?))
  return { assets, models }

/-- Where to log, in a section. -/
def toLog? (node : Node) : Option LogSettings := do
  let key ← node.section? ["dir", "file_prefix"]
  let d : LogSettings := {}
  let directory ← orDefault d.directory (key "dir") toOptionalText?
  let filePrefix ← orDefault d.filePrefix (key "file_prefix") toText?
  return { directory, filePrefix }

end Node

def ofNode? (node : Node) : Option Settings := do
  let key ← node.section? ["flatten", "cache", "catalog", "log"]
  let options ← Node.orDefault {} (key "flatten") Node.toOptions?
  let (lifetime, capacity) ←
    Node.orDefault (Cache.defaultLifetime, Cache.defaultCapacity) (key "cache") Node.toLimits?
  let catalog ← Node.orDefault {} (key "catalog") Node.toCatalog?
  let log ← Node.orDefault {} (key "log") Node.toLog?
  return { options, lifetime, capacity, catalog, log }

end Settings

end Unnest
