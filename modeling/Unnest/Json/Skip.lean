import Unnest.Json.Reader

/-!
# Passing over JSON values

A value that nobody asked for is passed over without being built: its nesting is not limited, its
numbers may be out of range and its strings need not make sense, but it has to follow the grammar.
`skipValue` keeps the brackets that are open in a list, innermost first.
-/

namespace Unnest.Json
open Text

/-- An open bracket: of a list or of an object. -/
inductive Bracket where
  | list
  | object
deriving DecidableEq, Repr

namespace Bracket

def close : Bracket → Symbol
  | list => .char ']'
  | object => .char '}'

/-- The fault when the text ends inside a bracket. -/
def unclosed : Bracket → Fault
  | list => .endInList
  | object => .endInObject

/-- The fault when neither a comma nor the closing bracket follows an item. -/
def unseparated : Bracket → Fault
  | list => .expectedCommaOrBracket
  | object => .expectedCommaOrBrace

end Bracket

/-- Passes over at least one digit. -/
def skipSomeDigits (input : List Symbol) : Except Failure (List Symbol) :=
  if input.head?.any isDigit then .ok (skipDigits input) else .error (.here .invalidNumber input)

/-- Passes over the power of a number, if there is one. -/
def skipPower (input : List Symbol) : Except Failure (List Symbol) :=
  match input with
  | .char 'e' :: rest | .char 'E' :: rest =>
    match rest with
    | .char '+' :: rest | .char '-' :: rest => skipSomeDigits rest
    | rest => skipSomeDigits rest
  | rest => .ok rest

/-- Passes over a number, whose first symbol is a digit or a minus sign. -/
def skipNumber (input : List Symbol) : Except Failure (List Symbol) := do
  let rest := match input with
    | .char '-' :: rest => rest
    | rest => rest
  let rest ← match rest with
    | .char '0' :: rest =>
      if rest.head?.any isDigit then .error (.here .invalidNumber rest) else .ok rest
    | rest => skipSomeDigits rest
  match rest with
  | .char '.' :: rest => skipPower (← skipSomeDigits rest)
  | rest => skipPower rest

def skipKey (input : List Symbol) : Except Failure (List Symbol) := do
  match skipSpace input with
  | [] => .error (.here .endInObject [])
  | .char '"' :: rest => readColon (← skipString rest)
  | rest => .error (.here .keyNotText rest)

/-- Passes over what stands before the value of an item in a bracket. -/
def skipToItem (bracket : Bracket) (input : List Symbol) : Except Failure (List Symbol) :=
  match bracket with
  | .list => .ok input
  | .object => skipKey input

/-- Where a reader that passes over a value stands. -/
inductive Place where
  /-- Before a value. -/
  | before
  /-- Right after an opening bracket. -/
  | opened
  /-- After a value. -/
  | after
deriving DecidableEq, Repr

/-- Passes over the rest of a value inside the brackets `enclosing`. Each round but the first that opens a
bracket takes a symbol, so twice the length of the input is fuel enough. -/
def skipRest : (fuel : Nat) → Place → List Bracket → List Symbol → Except Failure (List Symbol)
  | 0, _, _, input => .error (.here .endInValue input)
  | fuel + 1, .before, enclosing, input =>
    match skipSpace input with
    | [] => .error (.here .endInValue [])
    | .char 'n' :: rest => do
      skipRest fuel .after enclosing (← readIdentifier ['u', 'l', 'l'] rest)
    | .char 't' :: rest => do
      skipRest fuel .after enclosing (← readIdentifier ['r', 'u', 'e'] rest)
    | .char 'f' :: rest => do
      skipRest fuel .after enclosing (← readIdentifier ['a', 'l', 's', 'e'] rest)
    | .char '"' :: rest => do skipRest fuel .after enclosing (← skipString rest)
    | .char '[' :: rest => skipRest fuel .opened (.list :: enclosing) rest
    | .char '{' :: rest => skipRest fuel .opened (.object :: enclosing) rest
    | symbol :: rest =>
      if symbol = .char '-' || isDigit symbol then do
        skipRest fuel .after enclosing (← skipNumber (symbol :: rest))
      else .error (.here .expectedValue (symbol :: rest))
  | _ + 1, _, [], input => .ok input
  | fuel + 1, .opened, bracket :: enclosing, input =>
    match skipSpace input with
    | [] => .error (.here bracket.unclosed [])
    | symbol :: rest =>
      if symbol = bracket.close then skipRest fuel .after enclosing rest
      else do skipRest fuel .before (bracket :: enclosing) (← skipToItem bracket (symbol :: rest))
  | fuel + 1, .after, bracket :: enclosing, input =>
    match skipSpace input with
    | [] => .error (.here bracket.unclosed [])
    | symbol :: rest =>
      if symbol = bracket.close then skipRest fuel .after enclosing rest
      else if symbol = .char ',' then do
        skipRest fuel .before (bracket :: enclosing) (← skipToItem bracket rest)
      else .error (.here bracket.unseparated (symbol :: rest))

def skipValue (input : List Symbol) : Except Failure (List Symbol) :=
  skipRest (2 * input.length + 2) .before [] input

end Unnest.Json
