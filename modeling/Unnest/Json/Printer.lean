import Unnest.Decimal.Notation
import Unnest.Json.Value

/-!
# Writing JSON

`Json.render` writes a value, either on one line without any space or, given the depth at which it
stands, over several lines that are indented by two spaces for each level. Characters outside ASCII
are written as they are. Doubles have the fewest digits that read back and always a fraction or a
power of ten, so that they stay apart from whole numbers.
-/

namespace Unnest

/-- The layout of doubles: the point is placed among the digits for powers of ten from -5 to 15. -/
def Json.doubleLayout : Decimal.Layout := ⟨some (-5, 15), true⟩

namespace Json

def Number.render : Number → List Char
  | natural n => Nat.toDigits 10 n.toNat
  | negative n =>
    if 0 ≤ n.toInt then Nat.toDigits 10 n.toInt.natAbs else '-' :: Nat.toDigits 10 n.toInt.natAbs
  | real x => if x.isFinite then doubleLayout.text x else ['n', 'u', 'l', 'l']

/-- A digit of a lower-case hexadecimal number. -/
def hexChar (n : Nat) : Char := if n < 10 then Char.ofNat (48 + n) else Char.ofNat (87 + n)

/-- The text of a character in a string. -/
def escapeChar (c : Char) : List Char :=
  if c = '"' then ['\\', '"']
  else if c = '\\' then ['\\', '\\']
  else if c = '\x08' then ['\\', 'b']
  else if c = '\x0c' then ['\\', 'f']
  else if c = '\n' then ['\\', 'n']
  else if c = '\r' then ['\\', 'r']
  else if c = '\t' then ['\\', 't']
  else if c.toNat < 0x20 then ['\\', 'u', '0', '0', hexChar (c.toNat / 16), hexChar (c.toNat % 16)]
  else [c]

/-- The text of a string with its quotes. -/
def quote (s : String) : List Char := '"' :: s.toList.flatMap escapeChar ++ ['"']

/-- The break before an item that stands at a depth; nothing when the text has one line. -/
def lineBreak : Option Nat → List Char
  | none => []
  | some depth => '\n' :: List.replicate (2 * depth) ' '

/-- What stands between a key and its value. -/
def colon : Option Nat → List Char
  | none => [':']
  | some _ => [':', ' ']

mutual

/-- The text of a value that stands at `depth`, or on one line. -/
def render (depth : Option Nat) : Json → List Char
  | .null => ['n', 'u', 'l', 'l']
  | .bool true => ['t', 'r', 'u', 'e']
  | .bool false => ['f', 'a', 'l', 's', 'e']
  | .number n => n.render
  | .string s => quote s
  | .array [] => ['[', ']']
  | .array (item :: items) =>
    '[' :: lineBreak (depth.map (· + 1)) ++ render (depth.map (· + 1)) item
      ++ renderItems (depth.map (· + 1)) items ++ lineBreak depth ++ [']']
  | .object [] => ['{', '}']
  | .object ((key, value) :: members) =>
    '{' :: lineBreak (depth.map (· + 1)) ++ quote key ++ colon depth
      ++ render (depth.map (· + 1)) value ++ renderMembers (depth.map (· + 1)) members
      ++ lineBreak depth ++ ['}']

/-- The items of an array after the first, each after a comma. -/
def renderItems (depth : Option Nat) : List Json → List Char
  | [] => []
  | item :: items => ',' :: lineBreak depth ++ render depth item ++ renderItems depth items

/-- The members of an object after the first, each after a comma. -/
def renderMembers (depth : Option Nat) : List (String × Json) → List Char
  | [] => []
  | (key, value) :: members =>
    ',' :: lineBreak depth ++ quote key ++ colon depth ++ render depth value
      ++ renderMembers depth members

end

/-- The text of a value on one line, without any space. -/
def compact (j : Json) : String := String.ofList (render none j)

/-- The text of a value over several lines. -/
def pretty (j : Json) : String := String.ofList (render (some 0) j)

end Json

end Unnest
