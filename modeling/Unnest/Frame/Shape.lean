import Unnest.Frame.Basic

/-!
# Frames as JSON values

A frame is an object with the fields `name`, `columns` and, if there is metadata, `meta`; a column has
a `name` and `values`, an object whose single member names the type of the cells and lists them. These
functions go from frames to JSON values and back. Going back, a record may also be an array of its
fields, members that are not fields do not matter, and null metadata is none.
-/

namespace Unnest

def Column.fieldNames : List String := ["name", "values"]

def Frame.fieldNames : List String := ["name", "columns", "meta"]

/-- The cells as an object whose only member names their type. -/
def Cells.toJson : Cells Float → Json
  | float64 xs => .object [("float64", .array (xs.map Json.ofFloat))]
  | string xs => .object [("string", .array (xs.map .string))]
  | bool xs => .object [("bool", .array (xs.map .bool))]

def Column.toJson (column : Column Float) : Json :=
  .object [("name", .string column.name), ("values", column.cells.toJson)]

def Frame.toJson (frame : Frame Float) : Json :=
  .object ([("name", .string frame.name), ("columns", .array (frame.columns.map Column.toJson))]
    ++ frame.metadata.toList.map fun value => ("meta", value))

/-- The cells that an object with one member lists. -/
def Cells.ofJson? : Json → Option (Cells Float)
  | .object [(type, .array items)] =>
    match ScalarType.ofName? type with
    | some .float64 => (items.mapM fun (item : Json) => item.number?.map Json.Number.toFloat).map float64
    | some .string => (items.mapM Json.string?).map string
    | some .bool => (items.mapM Json.bool?).map bool
    | none => none
  | _ => none

def Column.ofJson? (j : Json) : Option (Column Float) := do
  let field ← j.record? Column.fieldNames
  let name ← (← field "name").string?
  let cells ← Cells.ofJson? (← field "values")
  return ⟨name, cells⟩

/-- The frame that a record describes, validated or not. -/
def Frame.ofJson? (j : Json) : Option (Frame Float) := do
  let field ← j.record? Frame.fieldNames
  let name ← (← field "name").string?
  let columns ← (← (← field "columns").array?).mapM Column.ofJson?
  let metadata := match field "meta" with
    | some .null => none
    | value => value
  return { name, columns, metadata }

end Unnest
