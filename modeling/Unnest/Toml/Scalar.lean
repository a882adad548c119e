import Unnest.Decimal.Double
import Unnest.Settings.Node

/-!
# Numbers, dates and truth values of TOML

A value that is neither quoted nor bracketed is a word of letters, digits and a few marks. `readWord`
says what it stands for: a truth value, a whole number of 64 bits, a double, or a date or time. Dates and
times are checked against the calendar and the clock and become texts in a normal form.
-/

namespace Unnest.Toml
open Settings

/-- The digits of a number that may be grouped by single underscores. -/
def ungroup? (isDigit : Char → Bool) : List Char → Option (List Char)
  | [] => none
  | [c] => if isDigit c then some [c] else none
  | c :: '_' :: rest => if isDigit c then (ungroup? isDigit rest).map (c :: ·) else none
  | c :: rest => if isDigit c then (ungroup? isDigit rest).map (c :: ·) else none

/-- The value of a letter or digit as a digit of a large base. -/
def digitValue (c : Char) : Nat :=
  if c.isDigit then c.toNat - '0'.toNat
  else if 'a' ≤ c ∧ c ≤ 'z' then c.toNat - 'a'.toNat + 10
  else if 'A' ≤ c ∧ c ≤ 'Z' then c.toNat - 'A'.toNat + 10
  else 36

/-- The number that digits spell in a base. -/
def ofDigits (base : Nat) (digits : List Char) : Nat :=
  digits.foldl (fun n c => n * base + digitValue c) 0

/-- Splits a sign from a word. -/
def splitSign : List Char → Option Bool × List Char
  | '+' :: rest => (some false, rest)
  | '-' :: rest => (some true, rest)
  | rest => (none, rest)

/-- The digits before the point or the power of a decimal number: no zero stands in front of others. -/
def wholePart? (cs : List Char) : Option (List Char) := do
  let digits ← ungroup? Char.isDigit cs
  match digits with
  | '0' :: _ :: _ => none
  | digits => some digits

/-- A whole number in a base other than ten. -/
def basedInteger? (base : Nat) (cs : List Char) : Option Int := do
  let digits ← ungroup? (fun c => digitValue c < base) cs
  return ofDigits base digits

/-- A whole number. -/
def integer? (word : List Char) : Option Int := do
  let n ← match word with
    | '0' :: 'x' :: digits => basedInteger? 16 digits
    | '0' :: 'o' :: digits => basedInteger? 8 digits
    | '0' :: 'b' :: digits => basedInteger? 2 digits
    | word => do
      let (sign, digits) := splitSign word
      let n : Int := ofDigits 10 (← wholePart? digits)
      pure (if sign = some true then -n else n)
  if -(Nat.pow 2 63 : Nat) ≤ n ∧ n < (Nat.pow 2 63 : Nat) then some n else none

/-- The power of ten after the mark of a double. -/
def power? (cs : List Char) : Option Int := do
  let (sign, digits) := splitSign cs
  let n : Int := ofDigits 10 (← ungroup? Char.isDigit digits)
  return if sign = some true then -n else n

/-- Whether a character marks the power of a double. -/
def isPowerMark (c : Char) : Bool := c = 'e' || c = 'E'

/-- A double with a point, a power or both. -/
def decimal? (word : List Char) : Option Float := do
  let (sign, rest) := splitSign word
  let (front, tail) := rest.span fun c => !isPowerMark c
  let power ← match tail with
    | [] => some 0
    | _ :: digits => power? digits
  let (whole, fraction) := front.span (· ≠ '.')
  let whole ← wholePart? whole
  let fraction ← match fraction with
    | [] => if tail.isEmpty then none else some []
    | _ :: digits => ungroup? Char.isDigit digits
  let x := Decimal.toDouble (ofDigits 10 (whole ++ fraction)) (power - fraction.length)
  if sign = some true then some (-x)
  else if x.isInf then none
  else some x

/-- A double; infinities and what is not a number have words of their own. -/
def double? (word : List Char) : Option Float :=
  match splitSign word with
  | (sign, ['i', 'n', 'f']) => some (if sign = some true then -1.0 / 0.0 else 1.0 / 0.0)
  | (_, ['n', 'a', 'n']) => some (0.0 / 0.0)
  | _ => decimal? word

/-- A number of exactly `count` digits that is at most `greatest`, and the rest. -/
def fixed? (count greatest : Nat) (cs : List Char) : Option (Nat × List Char) :=
  let digits := cs.take count
  if digits.length = count && digits.all Char.isDigit && ofDigits 10 digits ≤ greatest then
    some (ofDigits 10 digits, cs.drop count)
  else none

/-- The number of days of a month. -/
def daysOf (year month : Nat) : Nat :=
  if month = 2 then
    if year % 4 = 0 && (year % 100 ≠ 0 || year % 400 = 0) then 29 else 28
  else if month = 4 || month = 6 || month = 9 || month = 11 then 30
  else 31

/-- A date of the calendar at the front of a text: its text and the rest. -/
def date? (cs : List Char) : Option (List Char × List Char) := do
  let (year, rest) ← fixed? 4 9999 cs
  let '-' :: rest := rest | none
  let (month, rest) ← fixed? 2 12 rest
  let '-' :: rest := rest | none
  let (day, rest) ← fixed? 2 31 rest
  if month = 0 || day = 0 || daysOf year month < day then none
  else some (cs.take 10, rest)

/-- The fraction of a second: nine digits count, and zeros at the end are dropped. -/
def secondFraction (digits : List Char) : List Char :=
  match ((digits.take 9).reverse.dropWhile (· = '0')).reverse with
  | [] => []
  | kept => '.' :: kept

/-- A time of the day at the front of a text: its text and the rest. -/
def time? (cs : List Char) : Option (List Char × List Char) := do
  let (_, rest) ← fixed? 2 23 cs
  let ':' :: rest := rest | none
  let (_, rest) ← fixed? 2 59 rest
  let ':' :: rest := rest | none
  let (_, rest) ← fixed? 2 60 rest
  match rest with
  | '.' :: rest =>
    let digits := rest.takeWhile Char.isDigit
    if digits.isEmpty then none
    else some (cs.take 8 ++ secondFraction digits, rest.dropWhile Char.isDigit)
  | rest => some (cs.take 8, rest)

/-- The distance of a local time from the universal one, which is all that may be left of a text. -/
def offset? (cs : List Char) : Option (List Char) :=
  match cs with
  | [] => some []
  | ['Z'] | ['z'] => some ['Z']
  | sign :: rest => do
    if sign ≠ '+' && sign ≠ '-' then none
    let (hours, rest) ← fixed? 2 23 rest
    let ':' :: rest := rest | none
    let (minutes, rest) ← fixed? 2 59 rest
    if !rest.isEmpty then none
    return (if hours = 0 && minutes = 0 then '+' else sign) :: cs.drop 1

/-- A date, a time or both. -/
def moment? (cs : List Char) : Option (List Char) :=
  match date? cs with
  | some (date, []) => some date
  | some (date, mark :: rest) => do
    if mark ≠ 'T' && mark ≠ 't' && mark ≠ ' ' then none
    let (time, rest) ← time? rest
    return date ++ 'T' :: time ++ (← offset? rest)
  | none => do
    let (time, rest) ← time? cs
    if rest.isEmpty then some time else none

/-- Whether a character may stand in a word. -/
def isWordChar (c : Char) : Bool :=
  c.isAlphanum || c = '_' || c = '+' || c = '-' || c = '.' || c = ':'

/-- What a word stands for. -/
def word? (word : List Char) : Option Node :=
  match word with
  | ['t', 'r', 'u', 'e'] => some (.bool true)
  | ['f', 'a', 'l', 's', 'e'] => some (.bool false)
  | word =>
    match moment? word with
    | some text => some (.text (String.ofList text))
    | none =>
      match integer? word with
      | some n => some (.integer n)
      | none => (double? word).map .real

/-- Reads a word. A date may be followed by a space and a time, which belong to it. -/
def readWord (input : List Char) : Option (Node × List Char) :=
  let word := input.takeWhile isWordChar
  let rest := input.dropWhile isWordChar
  let joined : Option (Node × List Char) := do
    let (_, []) ← date? word | none
    let ' ' :: later := rest | none
    let time := later.takeWhile isWordChar
    let _ ← time? time
    let node ← word? (word ++ ' ' :: time)
    return (node, later.dropWhile isWordChar)
  match joined with
  | some result => some result
  | none => (word? word).map fun node => (node, rest)

end Unnest.Toml
