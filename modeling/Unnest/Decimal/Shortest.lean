/-!
# Shortest decimals of doubles

A finite double is `significand · 2 ^ exponent`. The reals that round to it form an interval around
it, whose ends belong to it exactly when the significand is even. `Magnitude.shortest` is the decimal
`digits · 10 ^ exponent` in that interval with the fewest digits; of two such decimals it is the one
nearer to the double, and on a tie the one whose last digit is even. Everything is exact arithmetic on
natural numbers.
-/

namespace Unnest.Decimal

/-- The size of a finite double: `significand · 2 ^ exponent`. -/
structure Magnitude where
  significand : Nat
  exponent : Int
deriving DecidableEq, Repr

/-- A decimal: `digits · 10 ^ exponent`. -/
structure Scaled where
  digits : Nat
  exponent : Int
deriving DecidableEq, Repr

/-- The size of the finite double with these bits. The fraction has 52 bits and the exponent 11; the
least exponent belongs to the subnormal doubles, which have no leading one. -/
def Magnitude.ofBits (bits : Nat) : Magnitude :=
  let fraction : Nat := bits % Nat.pow 2 52
  let biased : Nat := bits / Nat.pow 2 52 % Nat.pow 2 11
  if biased = 0 then ⟨fraction, -1074⟩ else ⟨Nat.pow 2 52 + fraction, (biased : Int) - 1075⟩

namespace Magnitude

/-- The factors that make a comparison whole: `a · 2 ^ binary` is to `b · 10 ^ decimal` as `a` times the
first factor is to `b` times the second. -/
def scales (binary decimal : Int) : Nat × Nat :=
  (Nat.pow 2 binary.toNat * Nat.pow 10 (-decimal).toNat, Nat.pow 2 (-binary).toNat * Nat.pow 10 decimal.toNat)

/-- The decimal nearest to the double among the two on the grid of step `10 ^ grid` that enclose it, if
one of them rounds to the double. Quantities of the double are counted in quarters of its last place,
because the gap below a power of two is half as wide as the gap above. -/
def onGrid? (m : Magnitude) (grid : Int) : Option Scaled :=
  let (up, down) := scales (m.exponent - 2) grid
  let middle := 4 * m.significand * up
  let low := (4 * m.significand - if m.significand = Nat.pow 2 52 ∧ -1074 < m.exponent then 1 else 2) * up
  let high := (4 * m.significand + 2) * up
  let closed := m.significand % 2 = 0
  let below := middle / down
  let inside (n : Nat) : Bool :=
    if closed then low ≤ n * down && n * down ≤ high else low < n * down && n * down < high
  let gapBelow := middle - below * down
  let gapAbove := (below + 1) * down - middle
  let preferBelow := gapBelow < gapAbove || (gapBelow == gapAbove && below % 2 == 0)
  match inside below && below != 0, inside (below + 1) with
  | true, true => some ⟨if preferBelow then below else below + 1, grid⟩
  | true, false => some ⟨below, grid⟩
  | false, true => some ⟨below + 1, grid⟩
  | false, false => none

/-- The number of decimal digits of the whole part, or one minus the number of zeros that follow the
point: `10 ^ (n - 1) ≤ m < 10 ^ n` for the result `n`. -/
def order (m : Magnitude) : Int :=
  let (up, down) := scales m.exponent 0
  let numerator := m.significand * up
  if down ≤ numerator then ((Nat.toDigits 10 (numerator / down)).length : Int)
  else
    let inverse := (down + numerator - 1) / numerator
    1 - ((Nat.toDigits 10 (inverse - 1)).length : Int)

/-- The first hit on the grids of `count`, `count + 1`, … digits, `tries` of them. -/
def search (m : Magnitude) (order : Int) : (tries : Nat) → (count : Int) → Option Scaled
  | 0, _ => none
  | tries + 1, count =>
    match m.onGrid? (order - count) with
    | some found => some found
    | none => search m order tries (count + 1)

/-- The decimal with the fewest digits that rounds to the double. Seventeen digits always suffice. -/
def shortest (m : Magnitude) : Scaled := (search m m.order 17 1).getD ⟨m.significand, 0⟩

end Magnitude

namespace Scaled

/-- Moves the zeros at the end of the digits into the exponent, at most `fuel` of them. -/
def dropZeros : (fuel : Nat) → Scaled → Scaled
  | 0, d => d
  | fuel + 1, d =>
    if d.digits ≠ 0 ∧ d.digits % 10 = 0 then dropZeros fuel ⟨d.digits / 10, d.exponent + 1⟩ else d

end Scaled

/-- The digits of a finite positive double, the first of them not zero and the last of them neither
unless it is the only one, and the power of ten of the first. -/
def digitsOfBits (bits : Nat) : List Char × Int :=
  let scaled := Scaled.dropZeros 20 (Magnitude.ofBits bits).shortest
  let digits := Nat.toDigits 10 scaled.digits
  (digits, scaled.exponent + digits.length - 1)

end Unnest.Decimal
