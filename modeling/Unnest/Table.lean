import Unnest.Frame.Basic
import Unnest.Json.Printer

/-!
# Typed tables

For storage a frame becomes a table: typed fields, text metadata and chunks of arrays, one array for
each field. The name of the frame and its own metadata, as one line of JSON, travel in the metadata of
the table. The arrays of a chunk must be equally long; a frame gives one chunk.
-/

namespace Unnest

/-- A field of a table. -/
structure TableField where
  name : String
  type : ScalarType
  nullable : Bool
deriving DecidableEq, Repr

/-- Rows of a table, as one array for each field. -/
structure Chunk (α : Type) where
  arrays : List (Cells α)
deriving DecidableEq

/-- Fields, metadata in the order of its keys, and rows. -/
structure Table (α : Type) where
  fields : List TableField
  metadata : List (String × String)
  chunks : List (Chunk α)
deriving DecidableEq

/-- Why a frame is no table. -/
inductive TableError where
  | unevenArrays
deriving DecidableEq, Repr

def TableError.message : TableError → String
  | unevenArrays =>
    "Arrow error: Invalid argument error: Chunk require all its arrays to have an equal number of rows"

/-- The name of a type in the schema of a table. -/
def ScalarType.storageName : ScalarType → String
  | float64 => "Float64"
  | string => "Utf8"
  | bool => "Boolean"

variable {α : Type}

/-- The number of rows of a chunk: the length of its first array. -/
def Chunk.rowCount (chunk : Chunk α) : Nat := chunk.arrays.head?.elim 0 Cells.length

/-- A chunk of arrays of one length. -/
def Chunk.ofArrays? (arrays : List (Cells α)) : Except TableError (Chunk α) :=
  let chunk : Chunk α := ⟨arrays⟩
  if arrays.all fun cells => cells.length = chunk.rowCount then .ok chunk else .error .unevenArrays

namespace Table

def nameKey : String := "frame.name"

/-- The metadata key of a frame's own metadata. -/
def metadataKey : String := "frame.meta"

def fieldOf (column : Column α) : TableField := ⟨column.name, column.type, false⟩

/-- The metadata of a frame's table. -/
def metadataOf (frame : Frame α) : List (String × String) :=
  (frame.metadata.toList.map fun value => (metadataKey, value.compact)) ++ [(nameKey, frame.name)]

def ofFrame? (frame : Frame α) : Except TableError (Table α) := do
  let chunk ← Chunk.ofArrays? (frame.columns.map Column.cells)
  return {
    fields := frame.columns.map fieldOf
    metadata := metadataOf frame
    chunks := [chunk] }

def rowCount (table : Table α) : Nat := table.chunks.foldr (fun chunk n => chunk.rowCount + n) 0

/-- The table as a file keeps it: chunks without rows are left out. -/
def stored (table : Table α) : Table α :=
  { table with chunks := table.chunks.filter fun chunk => chunk.rowCount ≠ 0 }

end Table

end Unnest
