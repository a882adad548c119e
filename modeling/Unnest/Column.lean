import Unnest.Quantity

/-!
# Columns

A column is a name and a list of cells of one scalar type. `Column.set?` writes one cell: it answers
`none`, and so changes nothing, exactly when the value has another type than the column or the row is
out of range.
-/

namespace Unnest

/-- The types of scalars. -/
inductive ScalarType where
  | float64
  | string
  | bool
deriving DecidableEq, Repr

/-- A scalar: a quantity, a text or a truth value. -/
inductive Scalar (α : Type) where
  | float64 (x : α)
  | string (s : String)
  | bool (b : Bool)
deriving DecidableEq

/-- The cells of a column. -/
inductive Cells (α : Type) where
  | float64 (xs : List α)
  | string (xs : List String)
  | bool (xs : List Bool)
deriving DecidableEq

/-- A named column. -/
structure Column (α : Type) where
  name : String
  cells : Cells α
deriving DecidableEq

namespace ScalarType

def name : ScalarType → String
  | float64 => "float64"
  | string => "string"
  | bool => "bool"

def ofName? : String → Option ScalarType
  | "float64" => some float64
  | "string" => some string
  | "bool" => some bool
  | _ => none

end ScalarType

variable {α : Type}

def Scalar.type : Scalar α → ScalarType
  | float64 _ => .float64
  | string _ => .string
  | bool _ => .bool

/-- The scalar that a JSON value stands for; null, arrays and objects are none. -/
def Scalar.ofJson? [Quantity α] : Json → Option (Scalar α)
  | .number n => some (float64 (Quantity.ofNumber n))
  | .string s => some (string s)
  | .bool b => some (bool b)
  | _ => none

namespace Cells

def type : Cells α → ScalarType
  | float64 _ => .float64
  | string _ => .string
  | bool _ => .bool

def length : Cells α → Nat
  | float64 xs => xs.length
  | string xs => xs.length
  | bool xs => xs.length

/-- `rows` cells of the zero value of a type: zero, the empty text or false. -/
def zeroed [Quantity α] (type : ScalarType) (rows : Nat) : Cells α :=
  match type with
  | .float64 => float64 (List.replicate rows Quantity.zero)
  | .string => string (List.replicate rows "")
  | .bool => bool (List.replicate rows false)

def get? (cells : Cells α) (row : Nat) : Option (Scalar α) :=
  match cells with
  | float64 xs => xs[row]?.map .float64
  | string xs => xs[row]?.map .string
  | bool xs => xs[row]?.map .bool

/-- A list with another value at an index that it has. -/
def replace? {β : Type} (xs : List β) (row : Nat) (x : β) : Option (List β) :=
  if row < xs.length then some (xs.set row x) else none

/-- Writes a value of the same type to a row in range. -/
def set? (cells : Cells α) (row : Nat) (value : Scalar α) : Option (Cells α) :=
  match cells, value with
  | float64 xs, .float64 x => (replace? xs row x).map float64
  | string xs, .string s => (replace? xs row s).map string
  | bool xs, .bool b => (replace? xs row b).map bool
  | _, _ => none

end Cells

namespace Column

/-- A column of zero values. -/
def zeroed [Quantity α] (name : String) (type : ScalarType) (rows : Nat) : Column α :=
  ⟨name, Cells.zeroed type rows⟩

def type (column : Column α) : ScalarType := column.cells.type

def length (column : Column α) : Nat := column.cells.length

def get? (column : Column α) (row : Nat) : Option (Scalar α) := column.cells.get? row

/-- The quantity in a row of a numeric column. -/
def float64? (column : Column α) (row : Nat) : Option α :=
  match column.get? row with
  | some (.float64 x) => some x
  | _ => none

/-- The text in a row of a text column. -/
def string? (column : Column α) (row : Nat) : Option String :=
  match column.get? row with
  | some (.string s) => some s
  | _ => none

/-- The truth value in a row of a boolean column. -/
def bool? (column : Column α) (row : Nat) : Option Bool :=
  match column.get? row with
  | some (.bool b) => some b
  | _ => none

def strings? (column : Column α) : Option (List String) :=
  match column.cells with
  | .string xs => some xs
  | _ => none

/-- Writes a value of the column's type to a row in range. -/
def set? (column : Column α) (row : Nat) (value : Scalar α) : Option (Column α) :=
  (column.cells.set? row value).map fun cells => { column with cells }

end Column

end Unnest
