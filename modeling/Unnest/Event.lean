import Unnest.Describe.Basic
import Unnest.Payload.Basic
import Unnest.Query.Kind
import Unnest.Traced

/-!
# Events

Everything worth reporting is an event. An event says what happened and to what; its level, its wording
and its named fields follow from that.
-/

namespace Unnest

/-- How serious an event is, least serious first. -/
inductive Level where
  | debug
  | info
  | warn
  | error
deriving DecidableEq, Repr

namespace Level

def name : Level → String
  | debug => "debug"
  | info => "info"
  | warn => "warn"
  | error => "error"

def ofName? : String → Option Level
  | "debug" => some debug
  | "info" => some info
  | "warn" => some warn
  | "error" => some error
  | _ => none

/-- The place of a level among the levels. -/
def rank : Level → Nat
  | debug => 0
  | info => 1
  | warn => 2
  | error => 3

end Level

/-- The value of a field of an event. -/
inductive FieldValue where
  | text (s : String)
  | count (n : Nat)
deriving DecidableEq, Repr

/-- What happened. -/
inductive Event where
  /-- Flattening starts. -/
  | flattening (assetId : String) (frames : Nat)
  /-- No property has a readable name. -/
  | noNames (assetId : String)
  /-- The asset has no model. -/
  | noModel (assetId : String)
  /-- The asset could not be described. -/
  | assetFailed (assetId : String) (error : DescribeError)
  /-- The model of the asset is known. -/
  | modelResolved (assetId modelId : String)
  /-- The model could not be described. -/
  | modelFailed (modelId : String) (error : DescribeError)
  /-- An asset was found in the cache. -/
  | assetHit (assetId : String)
  /-- A model was found in the cache. -/
  | modelHit (modelId : String)
  /-- A payload lacks an expected key. -/
  | keyMissing (frame column : String) (row : Nat) (key : String)
  /-- A cell starts like a payload and is none. -/
  | payloadCorrupted (frame column : String) (row : Nat) (error : PayloadError)
  /-- A cell is no payload. -/
  | noPayload (frame column : String) (row : Nat) (error : PayloadError)
  /-- A scalar does not fit the column of its key. -/
  | valueDropped (column : String) (row : Nat)
  /-- A column was not added because its name is in use. -/
  | nameInUse (frame column name : String)
  /-- A frame had payloads. -/
  | frameParsed (frame : String) (columns : Nat)
  /-- A response has no payloads to flatten. -/
  | nothingToFlatten (kind : QueryKind)
  /-- Frames were written to a file. -/
  | framesWritten (path : String) (frames : Nat)
  /-- A table was written to a file. -/
  | tableWritten (path frame : String) (rows : Nat)
  /-- A run starts on its inputs. -/
  | started (inputs : Nat)
  /-- An input could not be flattened. -/
  | inputFailed (input reason : String)
  /-- All inputs of a run were flattened. -/
  | finished
deriving DecidableEq, Repr

namespace Event

def level : Event → Level
  | noNames .. | noModel .. | assetFailed .. | modelFailed .. | keyMissing .. | payloadCorrupted ..
  | nameInUse .. => .warn
  | inputFailed .. => .error
  | flattening .. | modelResolved .. | frameParsed .. | framesWritten .. | tableWritten .. | started ..
  | finished => .info
  | assetHit .. | modelHit .. | noPayload .. | valueDropped .. | nothingToFlatten .. => .debug

def message : Event → String
  | flattening .. => "flattening JSON payloads"
  | noNames .. => "property name map empty, falling back to property ids"
  | noModel .. => "asset has no model"
  | assetFailed .. => "describe asset failed"
  | modelResolved .. => "resolved asset model"
  | modelFailed .. => "describe asset model failed"
  | assetHit .. => "asset cache hit"
  | modelHit .. => "model cache hit"
  | keyMissing .. => "payload missing expected field"
  | payloadCorrupted .. => "skipping row with corrupted JSON payload"
  | noPayload .. => "cell is not a JSON object"
  | valueDropped .. => "dropping value of conflicting type"
  | nameInUse .. => "derived column name already in use, skipping"
  | frameParsed .. => "parsed JSON in frame"
  | nothingToFlatten .. => "no JSON payloads to flatten"
  | framesWritten .. => "wrote JSON frames"
  | tableWritten .. => "wrote parquet file"
  | started .. => "starting"
  | inputFailed _ reason => reason
  | finished => "all inputs flattened"

def fields : Event → List (String × FieldValue)
  | flattening assetId frames => [("asset_id", .text assetId), ("frames", .count frames)]
  | noNames assetId | noModel assetId | assetHit assetId => [("asset_id", .text assetId)]
  | assetFailed assetId error => [("asset_id", .text assetId), ("err", .text error.message)]
  | modelResolved assetId modelId => [("asset_id", .text assetId), ("model_id", .text modelId)]
  | modelFailed modelId error => [("model_id", .text modelId), ("err", .text error.message)]
  | modelHit modelId => [("model_id", .text modelId)]
  | keyMissing frame column row key =>
    [("frame", .text frame), ("column", .text column), ("row", .count row), ("field", .text key)]
  | payloadCorrupted frame column row error | noPayload frame column row error =>
    [("frame", .text frame), ("column", .text column), ("row", .count row),
      ("err", .text error.message)]
  | valueDropped column row => [("column", .text column), ("row", .count row)]
  | nameInUse frame column name =>
    [("frame", .text frame), ("column", .text column), ("name", .text name)]
  | frameParsed frame columns => [("frame", .text frame), ("columns", .count columns)]
  | nothingToFlatten kind => [("query_type", .text kind.title)]
  | framesWritten path frames => [("path", .text path), ("frames", .count frames)]
  | tableWritten path frame rows =>
    [("path", .text path), ("frame", .text frame), ("rows", .count rows)]
  | started inputs => [("inputs", .count inputs)]
  | inputFailed input _ => [("input", .text input)]
  | finished => []

/-- An event on one line: its level, its wording and its fields. -/
def line (event : Event) : String :=
  let shown : String × FieldValue → String
    | (name, .text s) => " " ++ name ++ "=" ++ s
    | (name, .count n) => " " ++ name ++ "=" ++ toString n
  event.level.name.toUpper ++ " " ++ event.message ++ String.join (event.fields.map shown)

end Event

/-- A value and the events that led to it. -/
abbrev Logged := Traced Event

end Unnest
