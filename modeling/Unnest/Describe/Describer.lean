import Unnest.Describe.NameMap
import Unnest.Event
import Unnest.Text.Blank

/-!
# Describers

A describer answers what model an asset has and what properties a model has. It may keep a state of type
`σ`, which every question hands on, and it may report events. `Describer.nameMap` asks it at most twice:
for the model of an asset, and for the properties of that model if there is one. Whatever goes wrong is
reported and gives the empty map.
-/

namespace Unnest
open Text

/-- A computation that hands on a describer's state and reports events. -/
abbrev Session (σ : Type) := StateT σ Logged

/-- An answer or the reason why there is none. -/
abbrev Answer (α : Type) := Except DescribeError α

/-- A description service with a state. -/
structure Describer (σ : Type) where
  /-- The identifier of an asset's model; an asset need not have one. -/
  asset : String → Session σ (Answer (Option String))
  /-- The properties of a model. -/
  model : String → Session σ (Answer (List Property))

namespace Describer
variable {σ : Type}

def report (event : Event) : Session σ Unit := StateT.lift (Traced.emit event)

/-- The names of the properties of a model. -/
def modelNames (describer : Describer σ) (modelId : String) : Session σ NameMap := do
  match ← describer.model modelId with
  | .ok properties => return NameMap.ofProperties properties
  | .error error =>
    report (.modelFailed modelId error)
    return {}

/-- The names of the properties of an asset's model. An empty model identifier is none. -/
def assetNames (describer : Describer σ) (assetId : String) : Session σ NameMap := do
  match ← describer.asset assetId with
  | .ok (some modelId) =>
    if modelId.isEmpty then
      report (.noModel assetId)
      return {}
    else
      report (.modelResolved assetId modelId)
      describer.modelNames modelId
  | .ok none =>
    report (.noModel assetId)
    return {}
  | .error error =>
    report (.assetFailed assetId error)
    return {}

/-- The names for an asset identifier, which is trimmed first; an empty one is not looked up. -/
def nameMap (describer : Describer σ) (assetId : String) : Session σ NameMap := do
  let id := trim assetId
  let names ← if id.isEmpty then pure {} else describer.assetNames id
  if names.isEmpty then report (.noNames id)
  return names

end Describer

end Unnest
