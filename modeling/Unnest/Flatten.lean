import Unnest.Derived
import Unnest.Describe.Describer
import Unnest.Frame.Basic
import Unnest.Options
import Unnest.Payload.Diagnostics
import Unnest.Schema
import Unnest.Shares

/-!
# Flattening frames

Flattening keeps the columns of a frame as they are and adds, for each text column that holds payloads,
the columns derived from it: first one for each scalar key, in the order of its schema, then those of
contributions and anomaly scores, in the order in which they are first needed. The cells are filled row
by row; in one row the scalars are written first, then the anomaly scores, then the contribution shares.
Cells that no row supplies keep the zero value of their type.
-/

namespace Unnest
variable {α : Type} [Quantity α]

/-- Reads a cell of a text column and reports what is wrong with it. An empty cell is passed over. -/
def Payload.ofCell (frame column : String) (expected : List String) (row : Nat) (raw : String) :
    Logged (Option Payload) := do
  if raw.isEmpty then return none
  match Payload.decode raw with
  | .ok payload =>
    (payload.missingKeys expected).forM fun key => Traced.emit (.keyMissing frame column row key)
    return some payload
  | .error error =>
    if (Text.dropBlanks raw.toList).head? = some '{' then
      Traced.emit (.payloadCorrupted frame column row error)
    else Traced.emit (.noPayload frame column row error)
    return none

/-- Reads the cells of a text column from a row on. -/
def Payload.ofCells (frame column : String) (expected : List String) :
    (row : Nat) → List String → Logged (List (Option Payload))
  | _, [] => pure []
  | row, raw :: rest => do
    let payload ← Payload.ofCell frame column expected row raw
    return payload :: (← Payload.ofCells frame column expected (row + 1) rest)

namespace Derived

/-- Makes sure that there is a column for each key of a schema. -/
def requireFields (derived : Derived α) (schema : Schema) : Logged (Derived α) :=
  schema.foldlM (fun derived (key, type) => do return (← derived.require key type).1) derived

/-- Writes a scalar of a payload to the column of its key, if there is one. A value of another type than
the column's is dropped. -/
def fillScalar (row : Nat) (scalars : Entries String (Scalar α)) (derived : Derived α) (key : String) :
    Logged (Derived α) := do
  match derived.column? key, Entries.get? scalars key with
  | some _, some value =>
    match derived.write? key row value with
    | some derived => return derived
    | none =>
      Traced.emit (.valueDropped key row)
      return derived
  | _, _ => return derived

/-- Writes the scalars of a payload in the order of the schema. -/
def fillScalars (derived : Derived α) (schema : Schema) (row : Nat)
    (scalars : Entries String (Scalar α)) : Logged (Derived α) :=
  (Entries.keys schema).foldlM (fillScalar row scalars) derived

/-- Writes the anomaly score of a diagnostic, if it has one and its column can be had. -/
def fillAnomaly (derived : Derived α) (options : Options) (name : String) (row : Nat)
    (score : Option α) : Logged (Derived α) := do
  match score with
  | none => return derived
  | some score =>
    let column := options.anomalyPrefix ++ name
    let (derived, usable) ← derived.require column .float64
    return if usable then derived.write column row (.float64 score) else derived

/-- Records the contribution of a diagnostic under the name of its column and writes its anomaly score.
A diagnostic whose contribution column cannot be had is passed over altogether. -/
def fillDiagnostic (names : NameMap) (options : Options) (row : Nat)
    (gathered : Derived α × Shares String α) (diagnostic : Diagnostic α) :
    Logged (Derived α × Shares String α) := do
  let (derived, shares) := gathered
  let name := names.resolve diagnostic.propertyId
  let column := options.contributionPrefix ++ name
  let (derived, usable) ← derived.require column .float64
  if usable then
    let shares := match diagnostic.contribution with
      | some value => shares.record column value
      | none => shares
    return (← derived.fillAnomaly options name row diagnostic.anomalyScore, shares)
  else return (derived, shares)

def fillShares (derived : Derived α) (row : Nat) (shares : List (String × α)) : Derived α :=
  shares.foldl (fun derived (column, share) => derived.write column row (.float64 share)) derived

/-- Writes the anomaly scores and the contribution shares of a row. -/
def fillDiagnostics (derived : Derived α) (names : NameMap) (options : Options) (row : Nat)
    (diagnostics : List (Diagnostic α)) : Logged (Derived α) := do
  let (derived, shares) ← diagnostics.foldlM (fillDiagnostic names options row) (derived, {})
  return derived.fillShares row (shares.normalized.getD [])

/-- Writes what the payload of a row supplies. -/
def fillRow (names : NameMap) (options : Options) (schema : Schema) (derived : Derived α) (row : Nat)
    (payload : Payload) : Logged (Derived α) := do
  let derived ← derived.fillScalars schema row (payload.scalars options.excludedKeys)
  derived.fillDiagnostics names options row (payload.diagnostics options.segmentRule)

/-- Writes the rows from a row on; those without a payload are passed over. -/
def fillRows (names : NameMap) (options : Options) (schema : Schema) (derived : Derived α) :
    (row : Nat) → List (Option Payload) → Logged (Derived α)
  | _, [] => pure derived
  | row, none :: rest => fillRows names options schema derived (row + 1) rest
  | row, some payload :: rest => do
    fillRows names options schema (← fillRow names options schema derived row payload) (row + 1) rest

/-- The columns derived from rows of payloads, filled. -/
def ofPayloads (empty : Derived α) (names : NameMap) (options : Options)
    (payloads : List (Option Payload)) : Logged (List (Column α)) := do
  let schema := Schema.discover α payloads options.excludedKeys
  let derived ← empty.requireFields schema
  return (← fillRows names options schema derived 0 payloads).columns

end Derived

namespace Frame

/-- What flattening has added to a frame so far. -/
structure Additions (α : Type) where
  columns : List (Column α) := []
  /-- Whether some text column held a payload. -/
  parsed : Bool := false

/-- Adds the columns derived from a column, if it is a text column that holds a payload. -/
def addSource (frame : Frame α) (names : NameMap) (options : Options) (added : Additions α)
    (source : Column α) : Logged (Additions α) := do
  match source.strings? with
  | none => return added
  | some cells =>
    let payloads ← Payload.ofCells frame.name source.name options.expectedKeys 0 cells
    if payloads.all Option.isNone then return added
    else
      let empty : Derived α := {
        frame := frame.name
        source := source.name
        rows := frame.rowCount
        taken := frame.columnNames ++ added.columns.map Column.name }
      let columns ← empty.ofPayloads names options payloads
      return { columns := added.columns ++ columns, parsed := true }

/-- The frame with the columns that its payloads give rise to. -/
def flatten (frame : Frame α) (names : NameMap) (options : Options) : Logged (Frame α) := do
  let added ← frame.columns.foldlM (frame.addSource names options) {}
  let columns := frame.columns ++ added.columns
  if added.parsed then Traced.emit (.frameParsed frame.name columns.length)
  return { frame with columns }

def flattenEach (names : NameMap) (options : Options) (frames : List (Frame α)) :
    Logged (List (Frame α)) :=
  frames.mapM fun frame => frame.flatten names options

/-- Flattens frames with the names of an asset's properties, which are resolved once. -/
def flattenAll {σ : Type} (describer : Describer σ) (options : Options) (assetId : String)
    (frames : List (Frame α)) : Session σ (List (Frame α)) := do
  Describer.report (.flattening assetId frames.length)
  let names ← describer.nameMap assetId
  StateT.lift (flattenEach names options frames)

end Frame

end Unnest
