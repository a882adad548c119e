import Unnest.Entries

/-!
# JSON values

A JSON value keeps what its text said beyond the abstract value: the order of an object's members,
and whether a number was written as a whole number that fits 64 bits or as a double. Members of one
object have different keys; `Entries.put` keeps it so.
-/

namespace Unnest

/-- A JSON number. A whole number that fits is kept exactly: `natural` when it is at least zero,
`negative` below. Every other number is a double. -/
inductive Json.Number where
  | natural (n : UInt64)
  | negative (n : Int64)
  | real (x : Float)
deriving DecidableEq

/-- A JSON value. -/
inductive Json where
  | null
  | bool (b : Bool)
  | number (n : Json.Number)
  | string (s : String)
  | array (items : List Json)
  | object (members : List (String × Json))

namespace Json

instance : Inhabited Json := ⟨.null⟩

/-- The double nearest to a number. -/
def Number.toFloat : Number → Float
  | natural n => n.toFloat
  | negative n =>
    let size := n.toInt.natAbs.toUInt64.toFloat
    if n.toInt < 0 then -size else size
  | real x => x

/-- A double as a JSON value. The format has no text for infinities and for not-a-number: they are
written as null. -/
def ofFloat (x : Float) : Json := if x.isFinite then .number (.real x) else .null

/-- A natural number below 2⁶⁴. -/
def ofNat (n : Nat) : Json := .number (.natural n.toUInt64)

/-- The value of an object's member; `none` for a key it does not have and for a value that is no
object. -/
def get? (key : String) : Json → Option Json
  | object members => Entries.get? members key
  | _ => none

def string? : Json → Option String
  | string s => some s
  | _ => none

def bool? : Json → Option Bool
  | bool b => some b
  | _ => none

def number? : Json → Option Number
  | number n => some n
  | _ => none

def array? : Json → Option (List Json)
  | array items => some items
  | _ => none

def object? : Json → Option (List (String × Json))
  | object members => some members
  | _ => none

/-- A record of named fields, as a function from the names to their values: either an object, whose
other members do not matter, or an array that lists the fields in their declared order and may stop
early. An array with more items than there are fields is no record. -/
def record? (fields : List String) : Json → Option (String → Option Json)
  | object members => some (Entries.get? members)
  | array items =>
    if items.length ≤ fields.length then some (Entries.get? (fields.zip items)) else none
  | _ => none

/-- The name of a unit variant: its text, or an object whose only member has that name and is null. -/
def variant? : Json → Option String
  | string s => some s
  | object [(name, null)] => some name
  | _ => none

/-- A list of texts. -/
def strings? (j : Json) : Option (List String) := j.array?.bind fun items => items.mapM string?

end Json

end Unnest
