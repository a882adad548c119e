import Unnest.Toml.Item
import Unnest.Toml.Quoted
import Unnest.Toml.Scalar

/-!
# TOML documents

`parse?` reads a document line by line: a header opens a table or adds one to a list of tables, a key
with a value adds to the table opened last. Values may be nested `nestingLimit` deep. The loops over the
items of a list, the keys of a path and the lines of a document run on a fuel that starts at the length of
the text; every round takes at least one character.
-/

namespace Unnest.Toml
open Settings

/-- Bracketed values may be nested less deep than this, and a path has fewer keys. -/
def nestingLimit : Nat := 80

/-- Whether a character is a gap within a line. -/
def isGap (c : Char) : Bool := c = ' ' || c = '\t'

/-- The input after the gap at its front. -/
def skipGap (input : List Char) : List Char := input.dropWhile isGap

/-- The input after a comment, if one stands at its front; `none` if the comment holds a control
character. What ends a comment is left. -/
def skipComment? (input : List Char) : Option (List Char) :=
  match input with
  | '#' :: rest =>
    let rest := rest.dropWhile isPrintable
    if rest.isEmpty || (afterBreak? rest).isSome then some rest else none
  | rest => some rest

/-- The input after gaps, comments and line breaks. -/
def skipLines? : (fuel : Nat) → List Char → Option (List Char)
  | 0, input => some input
  | fuel + 1, input => do
    let rest ← skipComment? (skipGap input)
    match afterBreak? rest with
    | some rest => skipLines? fuel rest
    | none => some rest

/-- Whether a character may stand in a key without quotes. -/
def isBareChar (c : Char) : Bool := c.isAlphanum || c = '_' || c = '-'

def readKey (input : List Char) : Option (String × List Char) :=
  match input with
  | '"' :: _ | '\x27' :: _ => (readLine input).map fun (cs, rest) => (String.ofList cs, rest)
  | input =>
    match input.takeWhile isBareChar with
    | [] => none
    | key => some (String.ofList key, input.dropWhile isBareChar)

/-- Reads the keys of a path with points between them, and the gap behind it. -/
def readPath : (fuel : Nat) → List Char → Option (List String × List Char)
  | 0, _ => none
  | fuel + 1, input => do
    let (key, rest) ← readKey (skipGap input)
    match skipGap rest with
    | '.' :: rest =>
      let (path, rest) ← readPath fuel rest
      return (key :: path, rest)
    | rest => return ([key], rest)

/-- Reads a path that is not too long: the keys before the last, the last key and the rest. -/
def readLimitedPath (input : List Char) : Option (List String × String × List Char) := do
  let (path, rest) ← readPath input.length input
  let key ← path.getLast?
  if path.length < nestingLimit then some (path.dropLast, key, rest) else none

/-- Reads the items of a list, from the place where an item or the end may stand. `found` holds the items
read, last one first. -/
def readItems (value : List Char → Option (Node × List Char)) :
    (fuel : Nat) → (found : List Node) → List Char → Option (Node × List Char)
  | 0, _, _ => none
  | fuel + 1, found, input => do
    match ← skipLines? input.length input with
    | ']' :: rest => return (.list found.reverse, rest)
    | rest =>
      let (node, rest) ← value rest
      match ← skipLines? rest.length rest with
      | ',' :: rest => readItems value fuel (node :: found) rest
      | ']' :: rest => return (.list (node :: found).reverse, rest)
      | _ => none

/-- Reads the entries of an inline table, from the place where an entry must stand. -/
def readEntries (value : List Char → Option (Node × List Char)) :
    (fuel : Nat) → Item.Members → List Char → Option (Node × List Char)
  | 0, _, _ => none
  | fuel + 1, members, input => do
    let (path, key, rest) ← readLimitedPath input
    let '=' :: rest := rest | none
    let (node, rest) ← value (skipGap rest)
    let (_, members) ← Item.within true (Item.addValue path.isEmpty key node) path .header members
    match skipGap rest with
    | ',' :: rest => readEntries value fuel members rest
    | '}' :: rest => return (.table (Item.membersToNodes members), rest)
    | _ => none

/-- Reads a value in which brackets may be nested less than `depth` deep. -/
def readValue : (depth : Nat) → List Char → Option (Node × List Char)
  | 0, _ => none
  | depth + 1, input =>
    match input with
    | '"' :: _ | '\x27' :: _ => (readQuoted input).map fun (s, rest) => (.text s, rest)
    | '[' :: rest => readItems (readValue depth) (rest.length + 1) [] rest
    | '{' :: rest =>
      match skipGap rest with
      | '}' :: rest => some (.table [], rest)
      | rest => readEntries (readValue depth) (rest.length + 1) [] rest
    | input => readWord input

/-- What has been read of a document: its root table and the path to the table opened last. -/
structure State where
  root : Item.Members := []
  path : List String := []

/-- Opens the table that a header names, or adds one to a list of tables. -/
def State.openHeader (state : State) (list : Bool) (path : List String) (key : String) : Option State := do
  let change := if list then Item.appendTable key else Item.openTable key
  let (_, root) ← Item.within false change path .header state.root
  return { root, path := path ++ [key] }

/-- Adds a value to the table opened last. -/
def State.add (state : State) (path : List String) (key : String) (node : Node) : Option State := do
  let add := Item.within true (Item.addValue path.isEmpty key node) path
  let (_, root) ← Item.within false add state.path .header state.root
  return { state with root }

/-- Reads what stands on a line: nothing, a header or a key with a value. -/
def readLineOf (state : State) (input : List Char) : Option (State × List Char) := do
  match input with
  | '[' :: '[' :: rest =>
    let (path, key, rest) ← readLimitedPath rest
    let ']' :: ']' :: rest := rest | none
    return (← state.openHeader true path key, rest)
  | '[' :: rest =>
    let (path, key, rest) ← readLimitedPath rest
    let ']' :: rest := rest | none
    return (← state.openHeader false path key, rest)
  | input =>
    let (path, key, rest) ← readLimitedPath input
    let '=' :: rest := rest | none
    let (node, rest) ← readValue nestingLimit (skipGap rest)
    return (← state.add path key node, rest)

def readDocument : (fuel : Nat) → State → List Char → Option State
  | 0, _, _ => none
  | fuel + 1, state, input => do
    match ← skipLines? input.length input with
    | [] => return state
    | rest =>
      let (state, rest) ← readLineOf state rest
      match ← skipComment? (skipGap rest) with
      | [] => return state
      | rest => readDocument fuel state (← afterBreak? rest)

def parse? (text : List Char) : Option (List (String × Node)) :=
  (readDocument (text.length + 1) {} text).map fun state => Item.membersToNodes state.root

end Unnest.Toml
