import Unnest.Json.Value
import Unnest.Payload.Segment

/-!
# Options of flattening

The options say which keys never become columns, which keys are expected in every payload, how the
columns of contributions and of anomaly scores are called, and where a diagnostic's name holds the
property identifier.
-/

namespace Unnest

/-- The options of flattening with their defaults. -/
structure Options where
  /-- Keys that never become columns. The key of the diagnostics never does either. -/
  excludedKeys : List String := ["timestamp"]
  /-- Keys whose absence is reported. -/
  expectedKeys : List String := ["prediction", "prediction_reason"]
  /-- What the name of a contribution column starts with. -/
  contributionPrefix : String := "contrib_"
  /-- What the name of an anomaly column starts with. -/
  anomalyPrefix : String := "diag_anomaly_"
  segmentRule : SegmentRule := .index1
deriving DecidableEq, Repr

namespace Options

def fieldNames : List String :=
  ["excluded_keys", "expected_keys", "contrib_prefix", "anomaly_prefix", "segment_rule"]

/-- A field that keeps its default when it is absent. -/
def orDefault {β : Type} (default : β) (value : Option Json) (read : Json → Option β) : Option β :=
  match value with
  | none => some default
  | some j => read j

def ofJson? (j : Json) : Option Options := do
  let field ← j.record? fieldNames
  let d : Options := {}
  return {
    excludedKeys := ← orDefault d.excludedKeys (field "excluded_keys") Json.strings?
    expectedKeys := ← orDefault d.expectedKeys (field "expected_keys") Json.strings?
    contributionPrefix := ← orDefault d.contributionPrefix (field "contrib_prefix") Json.string?
    anomalyPrefix := ← orDefault d.anomalyPrefix (field "anomaly_prefix") Json.string?
    segmentRule := ← orDefault d.segmentRule (field "segment_rule")
      fun value => value.variant?.bind SegmentRule.ofName? }

end Options

end Unnest
