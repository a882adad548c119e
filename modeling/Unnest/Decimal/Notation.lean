import Unnest.Decimal.Shortest

/-!
# Notations of doubles

The text of a double is built from the digits of its shortest decimal and the power of ten of the
first digit. `Notation` says how: from which power up to which the point stands among the digits,
and whether a whole number keeps a fraction. Outside that range the first digit stands before the
point and the power follows.
-/

namespace Unnest.Decimal

/-- How the digits of a double are laid out. -/
structure Layout where
  /-- The powers of ten of the first digit for which the point is placed among the digits; `none` for
  all powers. -/
  positional : Option (Int × Int)
  /-- Whether a whole number written in positional form ends in `.0`. -/
  keepsFraction : Bool

/-- A point among the digits: zeros fill the places between the digits and the point. -/
def Layout.pointed (layout : Layout) (digits : List Char) (power : Int) : List Char :=
  if power < 0 then
    ['0', '.'] ++ List.replicate (-power - 1).toNat '0' ++ digits
  else
    let whole := power.toNat + 1
    if digits.length ≤ whole then
      digits ++ List.replicate (whole - digits.length) '0'
        ++ (if layout.keepsFraction then ['.', '0'] else [])
    else digits.take whole ++ ['.'] ++ digits.drop whole

/-- One digit before the point and the power of ten after the mark `e`, always with its sign. -/
def scientific (digits : List Char) (power : Int) : List Char :=
  digits.take 1 ++ (if digits.length ≤ 1 then [] else '.' :: digits.drop 1)
    ++ ['e', if power < 0 then '-' else '+'] ++ Nat.toDigits 10 power.natAbs

/-- The text of a finite double without its sign. -/
def Layout.magnitude (layout : Layout) (bits : Nat) : List Char :=
  if bits % Nat.pow 2 63 = 0 then (if layout.keepsFraction then ['0', '.', '0'] else ['0'])
  else
    let (digits, power) := digitsOfBits bits
    match layout.positional with
    | none => layout.pointed digits power
    | some (least, greatest) =>
      if least ≤ power ∧ power ≤ greatest then layout.pointed digits power
      else scientific digits power

def Layout.text (layout : Layout) (x : Float) : List Char :=
  let bits := x.toBits.toNat
  if Nat.pow 2 63 ≤ bits then '-' :: layout.magnitude bits else layout.magnitude bits

end Unnest.Decimal
