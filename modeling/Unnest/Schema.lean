import Unnest.Payload.Basic

/-!
# Schemas

The schema of a text column lists the scalar keys of all its payloads, in the order in which they are
first met row by row, each with the type of its first value. Rows without a payload add nothing.
-/

namespace Unnest

/-- Keys with their types, in first-discovery order. -/
abbrev Schema := Entries String ScalarType

namespace Schema

/-- Adds a key with a type unless it is known. -/
def add (schema : Schema) (key : String) (type : ScalarType) : Schema :=
  if Entries.contains schema key then schema else schema ++ [(key, type)]

def addRow {α : Type} (schema : Schema) (scalars : Entries String (Scalar α)) : Schema :=
  scalars.foldl (fun schema (key, value) => schema.add key value.type) schema

/-- The schema of rows, of which those that hold no payload are `none`. -/
def discover (α : Type) [Quantity α] (rows : List (Option Payload)) (excluded : List String) : Schema :=
  rows.foldl (fun schema row =>
    match row with
    | some payload => schema.addRow (payload.scalars (α := α) excluded)
    | none => schema) []

end Schema

end Unnest
