import Unnest.Checked
import Unnest.Flatten

/-!
# Flattening by places

Derived columns have places, and what is to be written can be kept with a place instead of a name: the slot of a
scalar key, the contributions of a row. `Indexed` flattens like that, with an index of the places and with a `Tally`
that keeps the order of contributions beside their values. That there is a column at a place, or a contribution under
a key that was noted, is not checked beforehand, so looking it up might fail. It never does, and flattening by places
is flattening by names.
-/

namespace Unnest
variable {α : Type}

/-- Derived columns with an index of their places by name. -/
structure Indexed (α : Type) where
  derived : Derived α
  index : Entries String Nat := []

/-- The contributions of a row: their keys in the order of recording, and their values. -/
structure Tally (κ α : Type) where
  order : List κ := []
  raw : Entries κ α := []

namespace Tally
variable {κ : Type} [DecidableEq κ] [Quantity α]

def record (tally : Tally κ α) (key : κ) (value : α) : Tally κ α where
  order := if Entries.contains tally.raw key then tally.order else tally.order ++ [key]
  raw := Entries.put tally.raw key value

def isEmpty (tally : Tally κ α) : Bool := tally.order.isEmpty

def total (tally : Tally κ α) : Checked α := do
  let values ← Checked.look (tally.order.mapM (Entries.get? tally.raw))
  return values.foldl Quantity.add Quantity.emptyTotal

/-- Each contribution as a percentage of the total, `none` if the total is zero or less. -/
def normalized (tally : Tally κ α) : Checked (Option (List (κ × α))) := do
  let total ← tally.total
  if Quantity.isNonpositive total then return none
  else
    let shares ← Checked.look (tally.order.mapM fun key =>
      (Entries.get? tally.raw key).map fun value => (key, Quantity.percentage value total))
    return some shares

end Tally

namespace Indexed
open Checked
variable [Quantity α]

/-- Makes sure that there is a column of a name and type; the answer is its place. -/
def require (indexed : Indexed α) (name : String) (type : ScalarType) : Checked (Indexed α × Option Nat) := do
  match Entries.get? indexed.index name with
  | some place =>
    let column ← look indexed.derived.columns[place]?
    return (indexed, if column.type = type then some place else none)
  | none =>
    if indexed.derived.taken.contains name then
      let derived ← OptionT.lift (indexed.derived.refuse name)
      return ({ indexed with derived }, none)
    else
      let place := indexed.derived.columns.length
      let columns := indexed.derived.columns ++ [Column.zeroed name type indexed.derived.rows]
      return ({ derived := { indexed.derived with columns }, index := Entries.put indexed.index name place },
        some place)

/-- Writes a cell of the column at a place; the answer says whether the column takes the value. -/
def set (indexed : Indexed α) (place row : Nat) (value : Scalar α) : Checked (Indexed α × Bool) := do
  let column ← look indexed.derived.columns[place]?
  match column.set? row value with
  | some column =>
    let columns := indexed.derived.columns.set place column
    return ({ indexed with derived := { indexed.derived with columns } }, true)
  | none => return (indexed, false)

/-- Makes sure that there is a column for each key of a schema; the answer is a slot for each. -/
def requireFields (indexed : Indexed α) : Schema → Checked (Indexed α × List (String × Option Nat))
  | [] => return (indexed, [])
  | (key, type) :: schema => do
    let (indexed, slot) ← indexed.require key type
    let (indexed, slots) ← indexed.requireFields schema
    return (indexed, (key, slot) :: slots)

def fillScalar (row : Nat) (scalars : Entries String (Scalar α)) (indexed : Indexed α)
    (slot : String × Option Nat) : Checked (Indexed α) := do
  match slot.2, Entries.get? scalars slot.1 with
  | some place, some value =>
    let (indexed, taken) ← indexed.set place row value
    if taken then return indexed
    else
      OptionT.lift (Traced.emit (.valueDropped slot.1 row))
      return indexed
  | _, _ => return indexed

def fillAnomaly (indexed : Indexed α) (options : Options) (name : String) (row : Nat) (score : Option α) :
    Checked (Indexed α) := do
  match score with
  | none => return indexed
  | some score =>
    let (indexed, slot) ← indexed.require (options.anomalyPrefix ++ name) .float64
    match slot with
    | some place => return (← indexed.set place row (.float64 score)).1
    | none => return indexed

def fillDiagnostic (names : NameMap) (options : Options) (row : Nat) (gathered : Indexed α × Tally Nat α)
    (diagnostic : Diagnostic α) : Checked (Indexed α × Tally Nat α) := do
  let (indexed, tally) := gathered
  let name := names.resolve diagnostic.propertyId
  let (indexed, slot) ← indexed.require (options.contributionPrefix ++ name) .float64
  match slot with
  | some place =>
    let tally := match diagnostic.contribution with
      | some value => tally.record place value
      | none => tally
    return (← indexed.fillAnomaly options name row diagnostic.anomalyScore, tally)
  | none => return (indexed, tally)

def fillShares (indexed : Indexed α) (row : Nat) (shares : List (Nat × α)) : Checked (Indexed α) :=
  shares.foldlM (fun indexed (place, share) => do return (← indexed.set place row (.float64 share)).1) indexed

def fillRow (names : NameMap) (options : Options) (slots : List (String × Option Nat)) (indexed : Indexed α)
    (row : Nat) (payload : Payload) : Checked (Indexed α) := do
  let indexed ← slots.foldlM (fillScalar row (payload.scalars options.excludedKeys)) indexed
  let (indexed, tally) ← (payload.diagnostics options.segmentRule).foldlM
    (fillDiagnostic names options row) (indexed, {})
  let shares ← tally.normalized
  indexed.fillShares row (shares.getD [])

def fillRows (names : NameMap) (options : Options) (slots : List (String × Option Nat)) (indexed : Indexed α) :
    (row : Nat) → List (Option Payload) → Checked (Indexed α)
  | _, [] => return indexed
  | row, none :: rest => fillRows names options slots indexed (row + 1) rest
  | row, some payload :: rest => do
    fillRows names options slots (← fillRow names options slots indexed row payload) (row + 1) rest

def ofPayloads (empty : Derived α) (names : NameMap) (options : Options) (payloads : List (Option Payload)) :
    Checked (List (Column α)) := do
  let (indexed, slots) ← requireFields ⟨empty, []⟩ (Schema.discover α payloads options.excludedKeys)
  return (← fillRows names options slots indexed 0 payloads).derived.columns

end Indexed

namespace Frame
variable [Quantity α]

end Frame

end Unnest
