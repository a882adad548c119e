import Unnest.Entries
import Unnest.Text.Lowercase

/-!
# Layered settings

Settings come from several layers, a file and the environment, that are put on top of each other. A
`Node` is a value of any layer. `Node.put` merges a value into a table: tables are merged key by key,
anything else replaces what was there. Keys are in lower case at every level. A key at the top of a
layer may be a path, whose steps lead into tables and lists (`Node.assign`). A list is made longer for an
index behind its end. An index before its start leads nowhere, and so does one for which a list would have
to hold more values than there is room for; then nothing comes of the layers.

The entries of a table are taken in an order of which nothing is known (`Order`). It matters where keys
have the same form in lower case, and where one path leads through another.
-/

namespace Unnest.Settings
open Text

/-- A value of a settings layer. -/
inductive Node where
  | nothing
  | bool (b : Bool)
  | integer (n : Int)
  | real (x : Float)
  | text (s : String)
  | list (items : List Node)
  | table (entries : List (String × Node))

namespace Node

instance : Inhabited Node := ⟨.nothing⟩

/-- The entries of a table; any other value has none. -/
def entries : Node → List (String × Node)
  | table entries => entries
  | _ => []

/-- The items of a list; any other value has none. -/
def items : Node → List Node
  | list items => items
  | _ => []

mutual

/-- The table with a value under a key, merged with the table that is there. -/
def put (root : Node) (key : String) : Node → Node
  | table incoming =>
    let known := (Entries.get? root.entries (lowercase key)).getD (table [])
    table (Entries.put root.entries (lowercase key) (putAll known incoming))
  | value => table (Entries.put root.entries (lowercase key) value)

/-- The table with all entries put into it. -/
def putAll (root : Node) : List (String × Node) → Node
  | [] => root
  | (key, value) :: rest => putAll (root.put key value) rest

end

/-- A step of a path: into a table, or into a list from its start or, below zero, from its end. -/
inductive Step where
  | member (key : String)
  | item (index : Int)
deriving DecidableEq, Repr

/-- The place in a list that an index means, if there is one; `room` is the number of values that a list
can hold. -/
def place? (room : Nat) (index : Int) (length : Nat) : Option Nat :=
  if 0 ≤ index then
    if index.toNat < length ∨ index.toNat < room then some index.toNat else none
  else if index.natAbs ≤ length then some (length - index.natAbs)
  else none

/-- The list with a value at a place; the places before it that it does not have are filled. -/
def setItem (items : List Node) (place : Nat) (value : Node) : List Node :=
  (items ++ List.replicate (place + 1 - items.length) nothing).set place value

/-- The node with a value at the end of a path, unless an index of the path leads nowhere. What is in the
way of the path is replaced. -/
def assign (room : Nat) (value : Node) : List Step → Node → Option Node
  | [], _ => some value
  | [.member key], root => some (root.put key value)
  | .member key :: rest, root => do
    let known := (Entries.get? root.entries (lowercase key)).getD nothing
    return table (Entries.put root.entries (lowercase key) (← assign room value rest known))
  | .item index :: rest, root => do
    let place ← place? room index root.items.length
    return list (setItem root.items place (← assign room value rest (root.items[place]?.getD nothing)))

/-- Whether a character may stand in a step of a path. -/
def isStepChar (c : Char) : Bool := c.isAlphanum || c = '_' || c = '-' || c = ' '

/-- The largest number of an index from the start of a list; from the end it may be one more. -/
def largestIndex : Nat := Nat.pow 2 63 - 1

/-- Reads an index between brackets, after the opening one. -/
def readIndex (cs : List Char) : Option (Int × List Char) :=
  let isGap (c : Char) : Bool := c = ' ' || c = '\t'
  let cs := cs.dropWhile isGap
  let (negative, cs) := match cs with
    | '-' :: rest => (true, rest)
    | rest => (false, rest)
  let digits := cs.takeWhile Char.isDigit
  let n : Nat := digits.foldl (fun n d => n * 10 + (d.toNat - '0'.toNat)) 0
  match (cs.dropWhile Char.isDigit).dropWhile isGap with
  | ']' :: rest =>
    if digits.isEmpty || largestIndex + (if negative then 1 else 0) < n then none
    else some (if negative then -n else n, rest)
  | _ => none

/-- Reads the steps of a path after the first; a step takes at least one character, so the length of
the text is fuel enough. -/
def readSteps : (fuel : Nat) → List Char → Option (List Step)
  | _, [] => some []
  | 0, _ => none
  | fuel + 1, '.' :: cs =>
    match cs.takeWhile isStepChar with
    | [] => none
    | key => (readSteps fuel (cs.dropWhile isStepChar)).map (.member (String.ofList key) :: ·)
  | fuel + 1, '[' :: cs => do
    let (index, rest) ← readIndex cs
    return .item index :: (← readSteps fuel rest)
  | _ + 1, _ => none

/-- The path that a key spells; a key that spells none is a single step. -/
def path (key : String) : List Step :=
  let cs := key.toList
  match cs.takeWhile isStepChar with
  | [] => [.member key]
  | first =>
    match readSteps cs.length (cs.dropWhile isStepChar) with
    | some steps => .member (String.ofList first) :: steps
    | none => [.member key]

/-- The settings with a layer put on top, if all paths of the layer lead somewhere. -/
def overlay (room : Nat) (root : Node) (layer : List (String × Node)) : Option Node :=
  layer.foldlM (fun root (key, value) => assign room value (path key) root) root

end Node

/-- An order in which the entries of each table are taken. A table is known by its layer and the keys that
lead to it, last one first. -/
structure Order where
  arrange : (trail : List String) → List (String × Node) → List (String × Node)
  perm : ∀ trail entries, (arrange trail entries).Perm entries

namespace Order
variable (order : Order)

mutual

/-- A value with its entries in order, and with those of the tables among them. -/
def node (trail : List String) : Node → Node
  | .table entries => .table (order.arrange trail (inner trail entries))
  | value => value

/-- Entries as they are, with those of the tables among them in order. -/
def inner (trail : List String) : List (String × Node) → List (String × Node)
  | [] => []
  | (key, value) :: rest => (key, node (key :: trail) value) :: inner trail rest

end

/-- The entries of a layer in order, and with those of the tables among them. -/
def layer (trail : List String) (entries : List (String × Node)) : List (String × Node) :=
  order.arrange trail (order.inner trail entries)

/-- The order in which entries are written. -/
def written : Order where
  arrange _ entries := entries
  perm _ _ := .refl _

end Order

end Unnest.Settings
