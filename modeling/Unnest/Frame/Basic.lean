import Unnest.Column

/-!
# Frames

A frame is a named table of columns with optional metadata. Its row count is the length of its first
column. `Frame.validate` accepts the frames whose columns are equally long and have different names,
and otherwise names the first column that breaks this.
-/

namespace Unnest

/-- A named list of columns with metadata. -/
structure Frame (α : Type) where
  name : String
  columns : List (Column α)
  metadata : Option Json := none

/-- Why a frame is no table. -/
inductive FrameError where
  | rowCountMismatch (frame column : String) (expected actual : Nat)
  | duplicateColumn (frame column : String)
deriving DecidableEq, Repr

def FrameError.message : FrameError → String
  | rowCountMismatch frame column expected actual =>
    "frame `" ++ frame ++ "`: column `" ++ column ++ "` has " ++ toString actual
      ++ " rows, expected " ++ toString expected
  | duplicateColumn frame column => "frame `" ++ frame ++ "`: duplicate column `" ++ column ++ "`"

namespace Frame
variable {α : Type}

/-- The length of the first column; a frame without columns has no rows. -/
def rowCount (frame : Frame α) : Nat := frame.columns.head?.elim 0 Column.length

def column? (frame : Frame α) (name : String) : Option (Column α) :=
  frame.columns.find? fun column => column.name = name

/-- The names of the columns in order. -/
def columnNames (frame : Frame α) : List String := frame.columns.map Column.name

/-- Checks columns in order against the expected row count and the names seen before them. -/
def validateColumns (frame : String) (expected : Nat) (seen : List String) :
    List (Column α) → Except FrameError Unit
  | [] => .ok ()
  | column :: rest =>
    if column.length ≠ expected then
      .error (.rowCountMismatch frame column.name expected column.length)
    else if column.name ∈ seen then .error (.duplicateColumn frame column.name)
    else validateColumns frame expected (column.name :: seen) rest

/-- Checks that all columns have the same length and different names. -/
def validate (frame : Frame α) : Except FrameError Unit :=
  validateColumns frame.name frame.rowCount [] frame.columns

/-- A frame without metadata, if its columns form a table. -/
def ofColumns? (name : String) (columns : List (Column α)) : Except FrameError (Frame α) :=
  let frame : Frame α := { name, columns }
  frame.validate.map fun _ => frame

def validateAll : List (Frame α) → Except FrameError Unit
  | [] => .ok ()
  | frame :: rest => frame.validate.bind fun _ => validateAll rest

end Frame

end Unnest
