/-!
# Compact records

The metadata of a Parquet file consists of records of numbered fields in a compact binary form. Numbers
take seven bits a byte, lowest bits first (`varint`), with signs folded in by doubling (`fold`). A field is
written after one byte that holds its type and the distance of its number from the number before.
-/

namespace Unnest.Parquet

/-- A natural number in groups of seven bits, lowest first; every byte but the last has its highest bit
set. -/
def varint (n : Nat) : List UInt8 :=
  if n < 128 then [n.toUInt8] else (n % 128 + 128).toUInt8 :: varint (n / 128)
termination_by n

/-- Integers as natural numbers: twice the number, or one less than twice its negative. -/
def fold (n : Int) : Nat := if 0 ≤ n then 2 * n.toNat else 2 * n.natAbs - 1

/-- The value of a field. -/
inductive Field where
  | int32 (n : Int)
  | int64 (n : Int)
  | text (s : String)
  /-- A list whose items are of the type with a number. -/
  | list (type : Nat) (items : List Field)
  | record (fields : List (Nat × Field))

namespace Field

def type : Field → Nat
  | int32 _ => 5
  | int64 _ => 6
  | text _ => 8
  | list .. => 9
  | record _ => 12

/-- A list of 32-bit numbers. -/
def int32s (ns : List Int) : Field := list 5 (ns.map int32)

/-- A list of texts. -/
def texts (ss : List String) : Field := list 8 (ss.map text)

/-- A list of records. -/
def records (rs : List (List (Nat × Field))) : Field := list 12 (rs.map record)

/-- The bytes of a text, after their number. -/
def textBytes (s : String) : List UInt8 := varint s.utf8ByteSize ++ s.toUTF8.data.toList

/-- What stands before the items of a list. -/
def listHeader (type size : Nat) : List UInt8 :=
  if size < 15 then [(size * 16 + type).toUInt8] else (240 + type).toUInt8 :: varint size

mutual

def bytes : Field → List UInt8
  | int32 n => varint (fold n)
  | int64 n => varint (fold n)
  | text s => textBytes s
  | list type items => listHeader type items.length ++ itemBytes items
  | record fields => memberBytes 0 fields

/-- The bytes of the items of a list. -/
def itemBytes : List Field → List UInt8
  | [] => []
  | item :: items => bytes item ++ itemBytes items

/-- The bytes of fields and of the zero that ends a record. Their numbers ascend by less than sixteen. -/
def memberBytes (before : Nat) : List (Nat × Field) → List UInt8
  | [] => [0]
  | (number, field) :: fields =>
    ((number - before) * 16 + field.type).toUInt8 :: (bytes field ++ memberBytes number fields)

end

end Field

end Unnest.Parquet
