import Unnest.Payload.Basic
import Unnest.Payload.Segment

/-!
# Diagnostics of a payload

The diagnostics of a payload are the objects in its `diagnostics` array whose `name` holds a property
identifier. Each may give a contribution `value` and an `anomaly_score`. Anything else in the array is
passed over.
-/

namespace Unnest

/-- A well-formed diagnostic: a property, its contribution and its anomaly score. -/
structure Diagnostic (α : Type) where
  propertyId : String
  contribution : Option α
  anomalyScore : Option α
deriving DecidableEq

namespace Payload
variable {α : Type} [Quantity α]

/-- The quantity under a key of an object, if it is a number. -/
def quantity? (key : String) (item : Json) : Option α :=
  ((item.get? key).bind Json.number?).map Quantity.ofNumber

/-- The diagnostic that an item of the array describes. -/
def diagnostic? (rule : SegmentRule) (item : Json) : Option (Diagnostic α) := do
  let name ← (← item.get? "name").string?
  let propertyId ← rule.propertyId? name
  return ⟨propertyId, quantity? "value" item, quantity? "anomaly_score" item⟩

/-- The items of the `diagnostics` array, if the payload has one. -/
def diagnosticItems? (payload : Payload) : Option (List Json) :=
  (payload.get? diagnosticsKey).bind Json.array?

/-- Whether the payload has a `diagnostics` array, be it empty. -/
def hasDiagnostics (payload : Payload) : Bool := payload.diagnosticItems?.isSome

/-- The well-formed diagnostics in document order. -/
def diagnostics (payload : Payload) (rule : SegmentRule) : List (Diagnostic α) :=
  (payload.diagnosticItems?.getD []).filterMap (diagnostic? rule)

end Payload

end Unnest
