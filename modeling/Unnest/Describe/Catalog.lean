import Unnest.Describe.Describer
import Unnest.Json.Value

/-!
# Catalogs

A catalog lists the models of assets and the properties of models once and for all. As a describer it
has no state, and it lists the properties of a model in the order of their identifiers.
-/

namespace Unnest

/-- Models by asset and property names by model. -/
structure Catalog where
  assets : Entries String String := []
  models : Entries String (Entries String String) := []
deriving DecidableEq, Repr

namespace Catalog

/-- The entries of a dictionary in the order of their keys. -/
def sorted {α : Type} (entries : Entries String α) : List (String × α) :=
  entries.mergeSort fun a b => decide (a.1 ≤ b.1)

def asset (catalog : Catalog) (id : String) : Answer (Option String) :=
  match Entries.get? catalog.assets id with
  | some model => .ok (some model)
  | none => .error (.assetNotFound id)

def model (catalog : Catalog) (id : String) : Answer (List Property) :=
  match Entries.get? catalog.models id with
  | some names => .ok ((sorted names).map fun (id, name) => ⟨id, name⟩)
  | none => .error (.modelNotFound id)

def describer (catalog : Catalog) : Describer Unit where
  asset id := pure (catalog.asset id)
  model id := pure (catalog.model id)

/-- A dictionary of texts. -/
def texts? (j : Json) : Option (Entries String String) := do
  let members ← j.object?
  members.mapM fun (key, value) => do return (key, ← value.string?)

def fieldNames : List String := ["assets", "models"]

/-- The catalog that a record describes; what is absent is empty. -/
def ofJson? (j : Json) : Option Catalog := do
  let field ← j.record? fieldNames
  let assets ← match field "assets" with
    | none => some []
    | some value => texts? value
  let models ← match field "models" with
    | none => some []
    | some value => do
      let members ← value.object?
      members.mapM fun (key, value) => do return (key, ← texts? value)
  return { assets, models }

end Catalog

end Unnest
