import Unnest.Entries
import Unnest.Quantity

/-!
# Contribution shares

The contributions of one row are gathered under keys; recording a key again replaces its value and
keeps its place. `normalized` gives each contribution as a percentage of their total, unless the total
is zero or less.
-/

namespace Unnest

/-- The contributions of a row, in the order in which their keys were first recorded. -/
structure Shares (κ α : Type) where
  recorded : Entries κ α := []

namespace Shares
variable {κ α : Type} [DecidableEq κ]

/-- Records a contribution; the last one of a key counts. -/
def record (shares : Shares κ α) (key : κ) (value : α) : Shares κ α :=
  ⟨Entries.put shares.recorded key value⟩

def isEmpty (shares : Shares κ α) : Bool := shares.recorded.isEmpty

variable [Quantity α]

/-- The sum of the contributions in recording order. -/
def total (shares : Shares κ α) : α :=
  shares.recorded.foldl (fun sum entry => Quantity.add sum entry.2) Quantity.emptyTotal

/-- Each contribution as a percentage of the total, `none` if the total is zero or less. -/
def normalized (shares : Shares κ α) : Option (List (κ × α)) :=
  if Quantity.isNonpositive shares.total then none
  else some (shares.recorded.map fun (key, value) => (key, Quantity.percentage value shares.total))

end Shares

end Unnest
