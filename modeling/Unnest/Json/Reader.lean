import Unnest.Json.Literal
import Unnest.Json.Numeral

/-!
# Reading JSON

`parse` reads a whole text as one value. Containers may be nested `nestingLimit` deep. `readList` and
`readMembers` take the reader of an item, so that lists of any kind are read by the same rules; their
loops run on a fuel that starts at the length of the input and lasts because every item takes at least
one symbol.
-/

namespace Unnest.Json
open Text

/-- The number of containers that may be open at once. -/
def nestingLimit : Nat := 127

/-- Whether JSON allows a symbol between two tokens. -/
def isSpace (symbol : Symbol) : Bool :=
  symbol = .char ' ' || symbol = .char '\n' || symbol = .char '\t' || symbol = .char '\r'

def skipSpace (input : List Symbol) : List Symbol := input.dropWhile isSpace

/-- Reads the letters that are left of an identifier. -/
def readIdentifier : List Char → List Symbol → Except Failure (List Symbol)
  | [], input => .ok input
  | _ :: _, [] => .error (.here .endInValue [])
  | c :: letters, symbol :: rest =>
    if symbol = .char c then readIdentifier letters rest
    else .error (.here .expectedIdentifier (symbol :: rest))

/-- Moves to the next item of a list; `false` past the closing bracket. A comma stands before every item
but the first. -/
def nextItem (first : Bool) (input : List Symbol) : Except Failure (Bool × List Symbol) :=
  match skipSpace input with
  | [] => .error (.here .endInList [])
  | .char ']' :: rest => .ok (false, rest)
  | .char ',' :: rest =>
    if first then .ok (true, .char ',' :: rest)
    else
      match skipSpace rest with
      | [] => .error (.here .endInValue [])
      | .char ']' :: rest => .error (.here .trailingComma (.char ']' :: rest))
      | rest => .ok (true, rest)
  | rest => if first then .ok (true, rest) else .error (.here .expectedCommaOrBracket rest)

/-- Reads the items of a list from the place where the next one or the end must stand. `found` holds
the items read, last one first. -/
def listItems {α : Type} (item : Reader α) :
    (fuel : Nat) → (first : Bool) → (found : List α) → Reader (List α)
  | 0, _, _, input => .error (.here .endInList input)
  | fuel + 1, first, found, input =>
    match nextItem first input with
    | .error failure => .error failure
    | .ok (false, rest) => .ok (found.reverse, rest)
    | .ok (true, rest) =>
      match item rest with
      | .ok (a, rest) => listItems item fuel false (a :: found) rest
      | .error failure => .error failure

def readList {α : Type} (item : Reader α) : Reader (List α) := fun input =>
  listItems item (input.length + 1) true [] input

/-- Reads the colon between a key and its value. -/
def readColon (input : List Symbol) : Except Failure (List Symbol) :=
  match skipSpace input with
  | [] => .error (.here .endInObject [])
  | .char ':' :: rest => .ok rest
  | rest => .error (.here .expectedColon rest)

/-- Moves to the next key of an object, past its opening quote; `false` past the closing brace. A comma
stands before every key but the first. -/
def nextKey (first : Bool) (input : List Symbol) : Except Failure (Bool × List Symbol) :=
  match skipSpace input with
  | [] => .error (.here .endInObject [])
  | .char '}' :: rest => .ok (false, rest)
  | .char ',' :: rest =>
    if first then .error (.here .keyNotText (.char ',' :: rest))
    else
      match skipSpace rest with
      | [] => .error (.here .endInValue [])
      | .char '"' :: rest => .ok (true, rest)
      | .char '}' :: rest => .error (.here .trailingComma (.char '}' :: rest))
      | rest => .error (.here .keyNotText rest)
  | .char '"' :: rest =>
    if first then .ok (true, rest)
    else .error (.here .expectedCommaOrBrace (.char '"' :: rest))
  | rest => .error (.here (if first then .keyNotText else .expectedCommaOrBrace) rest)

/-- Reads the members of an object and folds them: `member` is given what has been gathered and a key,
and reads on from the colon. -/
def foldMembers {σ : Type} (member : σ → String → Reader σ) :
    (fuel : Nat) → (first : Bool) → (gathered : σ) → Reader σ
  | 0, _, _, input => .error (.here .endInObject input)
  | fuel + 1, first, gathered, input =>
    match nextKey first input with
    | .error failure => .error failure
    | .ok (false, rest) => .ok (gathered, rest)
    | .ok (true, rest) =>
      match readString rest with
      | .error failure => .error failure
      | .ok (key, rest) =>
        match member gathered key rest with
        | .ok (gathered, rest) => foldMembers member fuel false gathered rest
        | .error failure => .error failure

def readMembers {σ : Type} (member : σ → String → Reader σ) (empty : σ) : Reader σ := fun input =>
  foldMembers member (input.length + 1) true empty input

/-- Reads a value in which at most `depth` containers may be open at once. -/
def readValue (depth : Nat) : Reader Json := fun input =>
  match skipSpace input with
  | [] => .error (.here .endInValue [])
  | .char 'n' :: rest => do return (.null, ← readIdentifier ['u', 'l', 'l'] rest)
  | .char 't' :: rest => do return (.bool true, ← readIdentifier ['r', 'u', 'e'] rest)
  | .char 'f' :: rest => do return (.bool false, ← readIdentifier ['a', 'l', 's', 'e'] rest)
  | .char '"' :: rest => do
    let (s, rest) ← readString rest
    return (.string s, rest)
  | .char '[' :: rest =>
    match depth with
    | 0 => .error (.here .tooDeep (.char '[' :: rest))
    | depth + 1 => do
      let (items, rest) ← readList (readValue depth) rest
      return (.array items, rest)
  | .char '{' :: rest =>
    match depth with
    | 0 => .error (.here .tooDeep (.char '{' :: rest))
    | depth + 1 => do
      let (members, rest) ← readMembers (fun members key input => do
        let rest ← readColon input
        let (value, rest) ← readValue depth rest
        return (Entries.put members key value, rest)) [] rest
      return (.object members, rest)
  | symbol :: rest =>
    if symbol = .char '-' || isDigit symbol then do
      let (n, rest) ← readNumber (symbol :: rest)
      return (.number n, rest)
    else .error (.here .expectedValue (symbol :: rest))

/-- Reads a whole text with a reader: nothing but space may be left. -/
def readAll {α : Type} (reader : Reader α) (input : List Symbol) : Except Failure α := do
  let (a, rest) ← reader input
  match skipSpace rest with
  | [] => .ok a
  | rest => .error (.here .trailingCharacters rest)

def parse (input : List Symbol) : Except Failure Json := readAll (readValue nestingLimit) input

end Unnest.Json
