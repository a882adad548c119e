import Unnest.Column
import Unnest.Json.Reader
import Unnest.Text.Blank

/-!
# Payloads

A payload is what one cell of a text column holds when its text is a JSON object: any number of scalar
members and, under the key `diagnostics`, an array of diagnostics. `Payload.decode` reads a cell; a text
of blanks only, a text that is not JSON and JSON that is no object are told apart.
-/

namespace Unnest
open Text

/-- The members of a JSON object in document order. -/
structure Payload where
  members : List (String × Json)

/-- Why a cell is no payload. -/
inductive PayloadError where
  | empty
  | malformed (fault : Json.Fault) (position : Position)
  | notAnObject
deriving DecidableEq, Repr

def PayloadError.message : PayloadError → String
  | empty => "empty cell"
  | malformed fault position => "malformed JSON: " ++ fault.describe position
  | notAnObject => "JSON value is not an object"

namespace Payload
variable {α : Type}

def diagnosticsKey : String := "diagnostics"

def decode (raw : String) : Except PayloadError Payload :=
  if allBlank raw then .error .empty
  else
    let text := Symbol.ofString raw
    match Json.parse text with
    | .error failure => .error (.malformed failure.fault (failure.position text))
    | .ok (.object members) => .ok ⟨members⟩
    | .ok _ => .error .notAnObject

def get? (payload : Payload) (key : String) : Option Json := Entries.get? payload.members key

/-- Whether a key may become a scalar column: it is not excluded and not the key of the diagnostics. -/
def isPromoted (excluded : List String) (key : String) : Bool :=
  key ≠ diagnosticsKey && !excluded.contains key

/-- The promoted scalar members in document order. Nulls, arrays and objects are passed over. -/
def scalars [Quantity α] (payload : Payload) (excluded : List String) : Entries String (Scalar α) :=
  payload.members.filterMap fun (key, value) =>
    if isPromoted excluded key then (Scalar.ofJson? value).map (key, ·) else none

/-- The expected keys that the payload lacks, in the order in which they are listed. -/
def missingKeys (payload : Payload) (expected : List String) : List String :=
  expected.filter fun key => !Entries.contains payload.members key

end Payload

end Unnest
