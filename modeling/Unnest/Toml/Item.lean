import Unnest.Settings.Node

/-!
# Tables under construction

While a TOML document is read, a table remembers how it came about, because that decides what may be
added to it: a table with a header of its own cannot get a second one or be extended by dotted keys, one
made by dotted keys cannot get a header, and one that only stands on the way to another may get its
header later. `Item.within` changes the table at the end of a path and makes the tables on the way.
-/

namespace Unnest.Toml
open Settings

/-- How a table came about. -/
inductive Origin where
  /-- It has a header. -/
  | header
  /-- It stands on the way to a table that has a header. -/
  | passage
  /-- It was made by a dotted key. -/
  | dotted
deriving DecidableEq, Repr

/-- What a key of a document stands for. -/
inductive Item where
  | value (node : Node)
  | table (origin : Origin) (entries : List (String × Item))
  | tables (list : List (List (String × Item)))

namespace Item

instance : Inhabited Item := ⟨.value .nothing⟩

abbrev Members := List (String × Item)

/-- A change to a table that may be refused. -/
abbrev Change := Origin → Members → Option (Origin × Members)

/-- Changes the table at the end of a path. The path leads through the last table of a list of tables and
never through a value; a path of dotted keys does not lead through a table with a header. -/
def within (dotted : Bool) (change : Change) : List String → Change
  | [], origin, members => change origin members
  | key :: path, origin, members =>
    match Entries.get? members key with
    | none => do
      let (made, inner) ← within dotted change path (if dotted then .dotted else .passage) []
      return (origin, Entries.put members key (table made inner))
    | some (value _) => none
    | some (table known inner) =>
      if dotted && known = .header then none
      else do
        let (made, inner) ← within dotted change path known inner
        return (origin, Entries.put members key (table made inner))
    | some (tables list) => do
      let last ← list.getLast?
      let (_, inner) ← within dotted change path .header last
      return (origin, Entries.put members key (tables (list.dropLast ++ [inner])))

def openTable (key : String) : Change := fun origin members =>
  match Entries.get? members key with
  | none => some (origin, Entries.put members key (table .header []))
  | some (table .passage inner) => some (origin, Entries.put members key (table .header inner))
  | some _ => none

/-- Adds a table to a list of tables. -/
def appendTable (key : String) : Change := fun origin members =>
  match Entries.get? members key with
  | none => some (origin, Entries.put members key (tables [[]]))
  | some (tables list) => some (origin, Entries.put members key (tables (list ++ [[]])))
  | some _ => none

/-- Adds a value under a key that the table does not have. The table was made by a dotted key exactly if
there was a path to it. -/
def addValue (pathIsEmpty : Bool) (key : String) (node : Node) : Change := fun origin members =>
  if (origin = .dotted) = pathIsEmpty || Entries.contains members key then none
  else some (origin, Entries.put members key (value node))

mutual

/-- The node that an item has become when the document is read. -/
def toNode : Item → Node
  | value node => node
  | table _ entries => .table (membersToNodes entries)
  | tables list => .list (tablesToNodes list)

def membersToNodes : List (String × Item) → List (String × Node)
  | [] => []
  | (key, item) :: rest => (key, toNode item) :: membersToNodes rest

def tablesToNodes : List (List (String × Item)) → List Node
  | [] => []
  | members :: rest => .table (membersToNodes members) :: tablesToNodes rest

end

end Item

end Unnest.Toml
