/-!
# Doubles from decimals

`toDouble` is the double nearest to `digits · 10 ^ exponent`. Powers of ten that are far out of the range
of doubles are answered without being computed. `roundHalfUp` is the natural number nearest to a double,
the greater one of two.
-/

namespace Unnest.Decimal

/-- The double nearest to `digits · 10 ^ exponent`. -/
def toDouble (digits : Nat) (exponent : Int) : Float :=
  let order : Int := (Nat.toDigits 10 digits).length + exponent
  if digits = 0 || order < -400 then 0.0
  else if 400 < order then 1.0 / 0.0
  else Float.ofScientific digits (exponent < 0) exponent.natAbs

/-- The natural number below `2 ^ 64` nearest to a double, away from zero when two are equally near. What
is below zero and what is not a number becomes zero, what is too large the largest. -/
def roundHalfUp (x : Float) : Nat :=
  let bits := x.toBits.toNat
  let fraction : Nat := bits % Nat.pow 2 52
  let biased : Nat := bits / Nat.pow 2 52 % Nat.pow 2 11
  if Nat.pow 2 63 ≤ bits || (biased = 2047 && fraction ≠ 0) then 0
  else
    let significand := Nat.pow 2 52 + fraction
    if biased < 1022 then 0
    else if 1087 ≤ biased then Nat.pow 2 64 - 1
    else if 1075 ≤ biased then significand * Nat.pow 2 (biased - 1075)
    else (2 * significand / Nat.pow 2 (1075 - biased) + 1) / 2

end Unnest.Decimal
