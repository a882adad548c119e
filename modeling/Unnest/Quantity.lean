import Unnest.Json.Value

/-!
# Quantities

Cells of a numeric column and contribution shares are computed in a `Quantity`: the library runs with
doubles, and everything that does not depend on rounding can be said of any other arithmetic as well.
-/

namespace Unnest

/-- The arithmetic in which numeric cells are kept and shares are computed. -/
class Quantity (α : Type) where
  /-- The quantity that a JSON number stands for. -/
  ofNumber : Json.Number → α
  /-- The cell of a row that supplies no value. -/
  zero : α
  /-- The total of nothing. -/
  emptyTotal : α
  /-- One summand more. -/
  add : α → α → α
  /-- A part as a percentage of a total. -/
  percentage : (part total : α) → α
  /-- Whether a total is zero or less. A total that cannot be compared with zero is not. -/
  isNonpositive : α → Bool

/-- Doubles. Sums start from minus zero, which is the neutral element of their addition. -/
instance : Quantity Float where
  ofNumber := Json.Number.toFloat
  zero := 0.0
  emptyTotal := -0.0
  add := (· + ·)
  percentage part total := part / total * 100.0
  isNonpositive total := total ≤ 0.0

end Unnest
