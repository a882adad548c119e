import Unnest.Frame.Shape
import Unnest.Json.Printer
import Unnest.Json.Skip

/-!
# Files of frames

A file of frames is a JSON array of frames. `Frame.readList` reads it from the front and stops at the
first problem, so a value of the wrong shape near the start is reported before broken JSON behind it.
Each reader is given the number of containers that may still be opened. `Frame.parseFile` then validates
the frames in order, and `Frame.renderFile` is the text of a file that holds frames.
-/

namespace Unnest
open Text Json

namespace Json

/-- The failure at a value that is not what was asked for: it breaks the grammar, or it is of the wrong
shape. Strings, numbers and identifiers are read to the end to find out. -/
def mismatch (input : List Symbol) : Failure :=
  let shape (outcome : Except Failure (List Symbol)) : Failure :=
    match outcome with
    | .ok rest => .within .wrongShape 0 rest
    | .error failure => failure
  match skipSpace input with
  | [] => .here .endInValue []
  | .char 'n' :: rest => shape (readIdentifier ['u', 'l', 'l'] rest)
  | .char 't' :: rest => shape (readIdentifier ['r', 'u', 'e'] rest)
  | .char 'f' :: rest => shape (readIdentifier ['a', 'l', 's', 'e'] rest)
  | .char '"' :: rest => shape ((readString rest).map Prod.snd)
  | .char '[' :: rest | .char '{' :: rest => .within .wrongShape 0 rest
  | symbol :: rest =>
    if symbol = .char '-' || isDigit symbol then
      shape ((readNumber (symbol :: rest)).map Prod.snd)
    else .here .expectedValue (symbol :: rest)

def expectString : Reader String := fun input =>
  match skipSpace input with
  | .char '"' :: rest => readString rest
  | rest => .error (mismatch rest)

def expectBool : Reader Bool := fun input =>
  match skipSpace input with
  | .char 't' :: rest => do return (true, ← readIdentifier ['r', 'u', 'e'] rest)
  | .char 'f' :: rest => do return (false, ← readIdentifier ['a', 'l', 's', 'e'] rest)
  | rest => .error (mismatch rest)

def expectFloat : Reader Float := fun input =>
  match skipSpace input with
  | [] => .error (mismatch [])
  | symbol :: rest =>
    if symbol = .char '-' || isDigit symbol then do
      let (n, rest) ← readNumber (symbol :: rest)
      return (n.toFloat, rest)
    else .error (mismatch (symbol :: rest))

/-- Reads a list whose items may open `depth - 1` containers. -/
def expectList {α : Type} (item : Nat → Reader α) (depth : Nat) : Reader (List α) := fun input =>
  match skipSpace input, depth with
  | .char '[' :: rest, 0 => .error (.here .tooDeep (.char '[' :: rest))
  | .char '[' :: rest, depth + 1 => readList (item depth) rest
  | rest, _ => .error (mismatch rest)

/-- Reads a field of a record, which must not have been read before, from the place before its colon. -/
def expectField {β : Type} (known : Option β) (value : Reader β) : Reader (Option β) := fun input => do
  if known.isSome then .error (.within .wrongShape 0 input)
  else
    let (b, rest) ← value (← readColon input)
    return (some b, rest)

/-- Reads the next field of a record that is written as an array, if there is one. -/
def nextField {β : Type} (first : Bool) (value : Reader β) : Reader (Option β) := fun input => do
  match ← nextItem first input with
  | (false, rest) => return (none, rest)
  | (true, rest) =>
    let (b, rest) ← value rest
    return (some b, rest)

/-- Reads the end of a record that is written as an array and has had all its fields. -/
def endFields (input : List Symbol) : Except Failure (List Symbol) :=
  match skipSpace input with
  | [] => .error (.here .endInList [])
  | .char ']' :: rest => .ok rest
  | .char ',' :: rest =>
    match skipSpace rest with
    | .char ']' :: rest => .error (.here .trailingComma (.char ']' :: rest))
    | rest => .error (.here .trailingCharacters rest)
  | rest => .error (.here .trailingCharacters rest)

end Json

namespace Cells

/-- Reads the cells of a type. -/
def readTyped (type : ScalarType) (depth : Nat) : Reader (Cells Float) := fun input =>
  match type with
  | .float64 => do
    let (xs, rest) ← expectList (fun _ => expectFloat) depth input
    return (.float64 xs, rest)
  | .string => do
    let (xs, rest) ← expectList (fun _ => expectString) depth input
    return (.string xs, rest)
  | .bool => do
    let (xs, rest) ← expectList (fun _ => expectBool) depth input
    return (.bool xs, rest)

/-- Reads an object whose only member names a type and lists the cells. -/
def read (depth : Nat) : Reader (Cells Float) := fun input =>
  match skipSpace input, depth with
  | [], _ => .error (.here .endInValue [])
  | .char '{' :: rest, 0 => .error (.here .tooDeep (.char '{' :: rest))
  | .char '{' :: rest, depth + 1 => do
    let (name, rest) ← expectString rest
    match ScalarType.ofName? name with
    | none => .error (.within .wrongShape 0 rest)
    | some type =>
      let (cells, rest) ← readTyped type depth (← readColon rest)
      match skipSpace rest with
      | [] => .error (.here .endInObject [])
      | .char '}' :: rest => return (cells, rest)
      | rest => .error (.here .expectedValue rest)
  | .char '"' :: rest, _ => do
    let (_, rest) ← readString rest
    .error (.within .wrongShape 0 rest)
  | rest, _ => .error (.here .expectedValue rest)

end Cells

namespace Column

/-- What has been read of a column. -/
structure Fields where
  name : Option String := none
  cells : Option (Cells Float) := none

def readMember (depth : Nat) (known : Fields) (key : String) : Reader Fields := fun input =>
  match key with
  | "name" => do
    let (name, rest) ← expectField known.name expectString input
    return ({ known with name }, rest)
  | "values" => do
    let (cells, rest) ← expectField known.cells (Cells.read depth) input
    return ({ known with cells }, rest)
  | _ => do return (known, ← skipValue (← readColon input))

/-- Reads the fields of a column from an array, after its opening bracket. -/
def readItems (depth : Nat) : Reader Fields := fun input => do
  let (name, rest) ← nextField true expectString input
  if name.isNone then return ({}, rest)
  let (cells, rest) ← nextField false (Cells.read depth) rest
  if cells.isNone then return ({ name }, rest)
  return ({ name, cells }, ← endFields rest)

/-- The column of which everything has been read. -/
def Fields.finish (known : Fields) (rest : List Symbol) : Except Failure (Column Float × List Symbol) :=
  match known with
  | ⟨some name, some cells⟩ => .ok (⟨name, cells⟩, rest)
  | _ => .error (.within .wrongShape 0 rest)

def read (depth : Nat) : Reader (Column Float) := fun input =>
  match skipSpace input, depth with
  | .char '{' :: rest, 0 => .error (.here .tooDeep (.char '{' :: rest))
  | .char '[' :: rest, 0 => .error (.here .tooDeep (.char '[' :: rest))
  | .char '{' :: rest, depth + 1 => do
    let (known, rest) ← readMembers (readMember depth) {} rest
    known.finish rest
  | .char '[' :: rest, depth + 1 => do
    let (known, rest) ← readItems depth rest
    known.finish rest
  | rest, _ => .error (mismatch rest)

end Column

namespace Frame

/-- What has been read of a frame. Metadata that was read may be none. -/
structure Fields where
  name : Option String := none
  columns : Option (List (Column Float)) := none
  metadata : Option (Option Json) := none

/-- Reads metadata; null is none. -/
def readMetadata (depth : Nat) : Reader (Option Json) := fun input => do
  let (value, rest) ← readValue depth input
  return (match value with
    | .null => none
    | value => some value, rest)

def readMember (depth : Nat) (known : Fields) (key : String) : Reader Fields := fun input =>
  match key with
  | "name" => do
    let (name, rest) ← expectField known.name expectString input
    return ({ known with name }, rest)
  | "columns" => do
    let (columns, rest) ← expectField known.columns (expectList Column.read depth) input
    return ({ known with columns }, rest)
  | "meta" => do
    let (metadata, rest) ← expectField known.metadata (readMetadata depth) input
    return ({ known with metadata }, rest)
  | _ => do return (known, ← skipValue (← readColon input))

/-- Reads the fields of a frame from an array, after its opening bracket. -/
def readItems (depth : Nat) : Reader Fields := fun input => do
  let (name, rest) ← nextField true expectString input
  if name.isNone then return ({}, rest)
  let (columns, rest) ← nextField false (expectList Column.read depth) rest
  if columns.isNone then return ({ name }, rest)
  let (metadata, rest) ← nextField false (readMetadata depth) rest
  if metadata.isNone then return ({ name, columns }, rest)
  return ({ name, columns, metadata }, ← endFields rest)

/-- The frame of which everything has been read; metadata may be missing. -/
def Fields.finish (known : Fields) (rest : List Symbol) : Except Failure (Frame Float × List Symbol) :=
  match known with
  | ⟨some name, some columns, metadata⟩ =>
    .ok ({ name, columns, metadata := metadata.getD none }, rest)
  | _ => .error (.within .wrongShape 0 rest)

def read (depth : Nat) : Reader (Frame Float) := fun input =>
  match skipSpace input, depth with
  | .char '{' :: rest, 0 => .error (.here .tooDeep (.char '{' :: rest))
  | .char '[' :: rest, 0 => .error (.here .tooDeep (.char '[' :: rest))
  | .char '{' :: rest, depth + 1 => do
    let (known, rest) ← readMembers (readMember depth) {} rest
    known.finish rest
  | .char '[' :: rest, depth + 1 => do
    let (known, rest) ← readItems depth rest
    known.finish rest
  | rest, _ => .error (mismatch rest)

/-- Reads a whole text as a list of frames, validated or not. -/
def readList (input : List Symbol) : Except Failure (List (Frame Float)) :=
  readAll (expectList read nestingLimit) input

/-- Why a file does not hold frames. -/
inductive FileError where
  | json (failure : Failure)
  | frame (error : FrameError)
deriving DecidableEq, Repr

/-- The frames in a file. Every one of them has been validated. -/
def parseFile (content : ByteArray) : Except FileError (List (Frame Float)) :=
  match readList (Symbol.ofBytes content) with
  | .error failure => .error (.json failure)
  | .ok frames =>
    match validateAll frames with
    | .error error => .error (.frame error)
    | .ok () => .ok frames

/-- The text of a file that holds frames. -/
def renderFile (frames : List (Frame Float)) : String := (Json.array (frames.map toJson)).pretty

end Frame

end Unnest
