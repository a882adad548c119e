import Unnest.Event

/-!
# Derived columns

While the payloads of one text column are flattened, the columns they give rise to are gathered in a
`Derived`. `require` makes sure that a column exists before anything is written to it: it creates the
column with zero values on first use, and refuses a name that the frame already uses or that belongs to
a derived column of another type. A refusal of the first kind is reported once for each name. Columns
are addressed by name, and no two of them share one.
-/

namespace Unnest

/-- The columns derived from one text column so far. -/
structure Derived (α : Type) where
  /-- The name of the frame. -/
  frame : String
  /-- The name of the text column. -/
  source : String
  /-- The number of rows of every derived column. -/
  rows : Nat
  /-- The names in use before this text column. -/
  taken : List String
  columns : List (Column α) := []
  /-- The names in use that were asked for, in the order of the first request. -/
  refused : List String := []

namespace Derived
variable {α : Type}

def column? (derived : Derived α) (name : String) : Option (Column α) :=
  derived.columns.find? fun column => column.name = name

/-- The place of the derived column with a name. -/
def index? (derived : Derived α) (name : String) : Option Nat :=
  derived.columns.findIdx? fun column => column.name = name

/-- Notes that a name in use was asked for, and reports it the first time. -/
def refuse (derived : Derived α) (name : String) : Logged (Derived α) := do
  if derived.refused.contains name then return derived
  else
    Traced.emit (.nameInUse derived.frame derived.source name)
    return { derived with refused := derived.refused ++ [name] }

/-- Makes sure that there is a column of a name and type; the answer says whether there is. -/
def require [Quantity α] (derived : Derived α) (name : String) (type : ScalarType) :
    Logged (Derived α × Bool) :=
  match derived.column? name with
  | some column => pure (derived, column.type = type)
  | none =>
    if derived.taken.contains name then do return (← derived.refuse name, false)
    else
      let column := Column.zeroed name type derived.rows
      pure ({ derived with columns := derived.columns ++ [column] }, true)

/-- Writes a cell of the first column with a name, if it takes the value. -/
def writeCell? (name : String) (row : Nat) (value : Scalar α) :
    List (Column α) → Option (List (Column α))
  | [] => none
  | column :: rest =>
    if column.name = name then (column.set? row value).map fun column => column :: rest
    else (writeCell? name row value rest).map fun rest => column :: rest

/-- Writes a cell of a derived column, if there is such a column and it takes the value. -/
def write? (derived : Derived α) (name : String) (row : Nat) (value : Scalar α) : Option (Derived α) :=
  (writeCell? name row value derived.columns).map fun columns => { derived with columns }

/-- Writes a cell of a derived column, or leaves everything as it is. -/
def write (derived : Derived α) (name : String) (row : Nat) (value : Scalar α) : Derived α :=
  (derived.write? name row value).getD derived

end Derived

end Unnest
