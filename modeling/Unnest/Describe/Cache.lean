import Unnest.Describe.Describer

/-!
# Caching answers

A caching describer remembers what another describer answered. Answers are kept under their identifier,
those for assets apart from those for models; that an asset has no model is an answer, a failure is none.
A cache of capacity zero or lifetime zero keeps nothing. Asking is a look-up, then a question to the
inner describer if nothing was found, then keeping its answer; the three steps are definitions of their
own.
-/

namespace Unnest

/-- Answers that are remembered. -/
structure Cache where
  /-- Whether anything is kept at all. -/
  keeps : Bool
  assets : Entries String (Option String) := []
  models : Entries String (List Property) := []
deriving DecidableEq, Repr

namespace Cache

/-- The seconds for which answers are valid unless said otherwise. -/
def defaultLifetime : Nat := 5 * 60

/-- The number of answers that are kept unless said otherwise. -/
def defaultCapacity : Nat := 1000

/-- The longest lifetime in seconds: a thousand years of 365 days. -/
def longestLifetime : Nat := 1000 * 365 * 24 * 3600

/-- An empty cache; there is none whose answers would be valid for longer than the longest lifetime. -/
def ofLimits? (lifetime capacity : Nat) : Option Cache :=
  if longestLifetime < lifetime then none else some { keeps := lifetime ≠ 0 && capacity ≠ 0 }

/-- An empty cache with the default limits. -/
def standard : Cache := { keeps := true }

def clear (cache : Cache) : Cache := { keeps := cache.keeps }

/-- The model of an asset, if it is known. -/
def asset? (cache : Cache) (id : String) : Option (Option String) := Entries.get? cache.assets id

/-- The properties of a model, if they are known. -/
def model? (cache : Cache) (id : String) : Option (List Property) := Entries.get? cache.models id

def keepAsset (cache : Cache) (id : String) (model : Option String) : Cache :=
  if cache.keeps then { cache with assets := Entries.put cache.assets id model } else cache

def keepModel (cache : Cache) (id : String) (properties : List Property) : Cache :=
  if cache.keeps then { cache with models := Entries.put cache.models id properties } else cache

end Cache

namespace Describer
variable {σ α : Type}

/-- Asks the inner describer beside a cache, which stays as it is. -/
def inner (question : Session σ α) : Session (Cache × σ) α := fun (cache, state) => do
  let (a, state) ← question state
  return (a, cache, state)

/-- The describer that answers from a cache where it can and fills it where it cannot. -/
def cached (describer : Describer σ) : Describer (Cache × σ) where
  asset id := do
    match (← get).1.asset? id with
    | some model =>
      report (.assetHit id)
      return .ok model
    | none =>
      match ← inner (describer.asset id) with
      | .ok model =>
        modify fun (cache, state) => (cache.keepAsset id model, state)
        return .ok model
      | .error error => return .error error
  model id := do
    match (← get).1.model? id with
    | some properties =>
      report (.modelHit id)
      return .ok properties
    | none =>
      match ← inner (describer.model id) with
      | .ok properties =>
        modify fun (cache, state) => (cache.keepModel id properties, state)
        return .ok properties
      | .error error => return .error error

end Describer

end Unnest
