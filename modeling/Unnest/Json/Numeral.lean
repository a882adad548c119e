import Unnest.Json.Fault
import Unnest.Json.Value

/-!
# Reading JSON numbers

A numeral is read into a significand below 2⁶⁴ and a power of ten. Digits that no longer fit are not
accumulated: one before the point adds one to the power, one after it is dropped. A numeral without
point, power and dropped digits is a whole number and stays exact if it fits 64 bits; every other is
the double `significand · 10 ^ power`, computed by one multiplication or division by a power of ten as
long as that power is at most 308 (`scale?`). The result is therefore not always the nearest double. A
numeral too large for a double is refused, one too small is zero.
-/

namespace Unnest.Json
open Text

def digit? : Symbol → Option Nat
  | .char c => if c.isDigit then some (c.toNat - '0'.toNat) else none
  | .stray _ => none

def isDigit (s : Symbol) : Bool := (digit? s).isSome

/-- The rest of a text after the digits it starts with. -/
def skipDigits (input : List Symbol) : List Symbol := input.dropWhile isDigit

/-- A numeral without its sign: `significand · 10 ^ power`. -/
structure Numeral where
  significand : Nat
  power : Int
  /-- Whether the numeral has neither point nor power nor dropped digits. -/
  whole : Bool
deriving DecidableEq, Repr

namespace Numeral

/-- The least number that a significand cannot be. -/
def limit : Nat := Nat.pow 2 64

/-- The least number that a written power cannot be. -/
def powerLimit : Nat := Nat.pow 2 31

/-- Takes the digits before the point: the significand, the number of digits that did not fit and the
rest. -/
def wholeDigits (significand : Nat) : List Symbol → Nat × Nat × List Symbol
  | [] => (significand, 0, [])
  | symbol :: rest =>
    match digit? symbol with
    | some d =>
      if significand * 10 + d < limit then wholeDigits (significand * 10 + d) rest
      else (significand, ((symbol :: rest).takeWhile isDigit).length, skipDigits (symbol :: rest))
    | none => (significand, 0, symbol :: rest)

/-- Takes the digits after the point: the significand, the number of digits used and the rest. The
first digit that does not fit ends the accumulation. -/
def fractionDigits (significand used : Nat) : List Symbol → Nat × Nat × List Symbol
  | [] => (significand, used, [])
  | symbol :: rest =>
    match digit? symbol with
    | some d =>
      if significand * 10 + d < limit then fractionDigits (significand * 10 + d) (used + 1) rest
      else (significand, used, skipDigits (symbol :: rest))
    | none => (significand, used, symbol :: rest)

/-- Takes the digits of a written power: the power and the rest, or the rest after the digit with which
it exceeds every limit. -/
def powerDigits (power : Nat) : List Symbol → Except (List Symbol) (Nat × List Symbol)
  | [] => .ok (power, [])
  | symbol :: rest =>
    match digit? symbol with
    | some d =>
      if power * 10 + d < powerLimit then powerDigits (power * 10 + d) rest else .error rest
    | none => .ok (power, symbol :: rest)

/-- Takes a written power after its mark, and adds it to `power`. A power that exceeds every limit
makes the number zero, or out of range if it is positive and the significand is not zero. -/
def afterMark (significand : Nat) (power : Int) (input : List Symbol) :
    Except Failure (Numeral × List Symbol) :=
  let (rising, rest) := match input with
    | .char '+' :: rest => (true, rest)
    | .char '-' :: rest => (false, rest)
    | rest => (true, rest)
  match rest with
  | [] => .error (.here .endInValue [])
  | first :: others =>
    match digit? first with
    | none => .error (.here .invalidNumber rest)
    | some d =>
      match powerDigits d others with
      | .ok (written, rest) =>
        .ok (⟨significand, if rising then power + written else power - written, false⟩, rest)
      | .error rest =>
        if significand ≠ 0 && rising then .error (.within .numberOutOfRange 0 rest)
        else .ok (⟨0, 0, false⟩, skipDigits rest)

/-- Takes a written power if there is one. -/
def power? (significand : Nat) (power : Int) (input : List Symbol) :
    Except Failure (Numeral × List Symbol) :=
  match input with
  | .char 'e' :: rest | .char 'E' :: rest => afterMark significand power rest
  | rest => .ok (⟨significand, power, false⟩, rest)

/-- Takes what may follow the digits before the point, of which `dropped` did not fit. -/
def afterWhole (significand dropped : Nat) (input : List Symbol) :
    Except Failure (Numeral × List Symbol) :=
  match input with
  | .char '.' :: rest =>
    if !(rest.head?.any isDigit) then
      .error (.here (if rest.isEmpty then .endInValue else .invalidNumber) rest)
    else
      let (significand, used, rest) := fractionDigits significand 0 rest
      power? significand (dropped - used) rest
  | .char 'e' :: rest | .char 'E' :: rest => afterMark significand dropped rest
  | rest => .ok (⟨significand, dropped, dropped = 0⟩, rest)

/-- Takes a numeral without its sign. Nothing but the end, a point or a power may follow a leading
zero. -/
def read (input : List Symbol) : Except Failure (Numeral × List Symbol) :=
  match input with
  | [] => .error (.here .endInValue [])
  | first :: rest =>
    match digit? first with
    | none => .error (.here .invalidNumber input)
    | some 0 =>
      if rest.head?.any isDigit then .error (.here .invalidNumber rest) else afterWhole 0 0 rest
    | some d =>
      let (significand, dropped, rest) := wholeDigits d rest
      afterWhole significand dropped rest

/-- The double nearest to a power of ten. -/
def powerOfTen (k : Nat) : Float := Float.ofScientific 1 false k

/-- `x · 10 ^ power` in double arithmetic, `none` when it is out of range. Powers below -308 are taken
in steps of 308 until nothing is left of `x`; there are at most `fuel` steps. -/
def scale? : (fuel : Nat) → Float → (power : Int) → Option Float
  | 0, x, _ => some x
  | fuel + 1, x, power =>
    if power.natAbs ≤ 308 then
      if 0 ≤ power then
        let y := x * powerOfTen power.toNat
        if y.isInf then none else some y
      else some (x / powerOfTen power.natAbs)
    else if x == 0.0 then some x
    else if 0 < power then none
    else scale? fuel (x / powerOfTen 308) (power + 308)

def toFloat? (numeral : Numeral) : Option Float :=
  scale? (numeral.power.natAbs / 308 + 2) numeral.significand.toUInt64.toFloat numeral.power

/-- The number that a numeral with a sign stands for; `none` when it is out of range. Minus zero, and
whatever is below every 64-bit integer, is a double. -/
def toNumber? (negative : Bool) (numeral : Numeral) : Option Number :=
  if numeral.whole then
    let m := numeral.significand
    if !negative then some (.natural m.toUInt64)
    else if 0 < m ∧ m ≤ Nat.pow 2 63 then some (.negative (Int64.ofInt (-m)))
    else some (.real (-m.toUInt64.toFloat))
  else numeral.toFloat?.map fun x => .real (if negative then -x else x)

end Numeral

/-- Reads a number, whose first symbol is a digit or a minus sign. -/
def readNumber : Reader Number := fun input => do
  let (negative, rest) := match input with
    | .char '-' :: rest => (true, rest)
    | rest => (false, rest)
  let (numeral, rest) ← Numeral.read rest
  match numeral.toNumber? negative with
  | some n => .ok (n, rest)
  | none => .error (.within .numberOutOfRange 0 rest)

end Unnest.Json
