import Unnest.Parquet.Record
import Unnest.Table

/-!
# Parquet files

`ofTable` is the file of a typed table. Every chunk becomes a row group, and every array of it one page of
plain, uncompressed values. The metadata at the end of the file lists the fields, where the pages are, and
the metadata of the table. No value is ever missing, so all fields are required.
-/

namespace Unnest.Parquet

/-- The letters that begin and end a file. -/
def magic : List UInt8 := "PAR1".toUTF8.data.toList

/-- The lowest `count` bytes of a number, lowest first. -/
def littleEndian : (count n : Nat) → List UInt8
  | 0, _ => []
  | count + 1, n => (n % 256).toUInt8 :: littleEndian count (n / 256)

/-- Truth values as the bits of bytes, lowest bit first. -/
def packBits : List Bool → List UInt8
  | a :: b :: c :: d :: e :: f :: g :: h :: rest => packByte [a, b, c, d, e, f, g, h] :: packBits rest
  | [] => []
  | rest => [packByte rest]
where
  /-- Up to eight truth values as a byte. -/
  packByte (bits : List Bool) : UInt8 :=
    (bits.foldr (fun (bit : Bool) n => 2 * n + bit.toNat) 0).toUInt8

/-- The plain form of values. -/
def plainBytes : Cells Float → List UInt8
  | .float64 xs => xs.flatMap fun x => littleEndian 8 x.toBits.toNat
  | .string ss => ss.flatMap fun s => littleEndian 4 s.utf8ByteSize ++ s.toUTF8.data.toList
  | .bool bs => packBits bs

def typeNumber : ScalarType → Int
  | .float64 => 5
  | .string => 6
  | .bool => 0

/-- The header of a page of `count` values in `size` bytes. -/
def pageHeader (count size : Nat) : List UInt8 :=
  Field.bytes (.record [
    (1, .int32 0),
    (2, .int32 size),
    (3, .int32 size),
    (5, .record [(1, .int32 count), (2, .int32 0), (3, .int32 3), (4, .int32 3)])])

/-- The page of an array. -/
def page (cells : Cells Float) : List UInt8 :=
  let values := plainBytes cells
  pageHeader cells.length values.length ++ values

/-- Where a page of a field starts and what is in it. -/
def columnRecord (field : TableField) (cells : Cells Float) (start size : Nat) : List (Nat × Field) :=
  [(2, .int64 start),
    (3, .record [
      (1, .int32 (typeNumber field.type)),
      (2, Field.int32s [0, 3]),
      (3, Field.texts [field.name]),
      (4, .int32 0),
      (5, .int64 cells.length),
      (6, .int64 size),
      (7, .int64 size),
      (9, .int64 start)])]

/-- The bytes of a part of the file and the records that say what is in it. -/
structure Part where
  bytes : List UInt8 := []
  records : List (List (Nat × Field)) := []

/-- The pages of arrays from an offset on. -/
def columns (start : Nat) : List (TableField × Cells Float) → Part
  | [] => {}
  | (field, cells) :: rest =>
    let bytes := page cells
    let later := columns (start + bytes.length) rest
    { bytes := bytes ++ later.bytes
      records := columnRecord field cells start bytes.length :: later.records }

/-- The row groups of chunks from an offset on. -/
def rowGroups (fields : List TableField) (start : Nat) : List (Chunk Float) → Part
  | [] => {}
  | chunk :: rest =>
    let group := columns start (fields.zip chunk.arrays)
    let later := rowGroups fields (start + group.bytes.length) rest
    { bytes := group.bytes ++ later.bytes
      records := [
        (1, Field.records group.records),
        (2, .int64 group.bytes.length),
        (3, .int64 chunk.rowCount)] :: later.records }

/-- The element of the schema for a field. -/
def schemaElement (field : TableField) : List (Nat × Field) :=
  [(1, .int32 (typeNumber field.type)), (3, .int32 0), (4, .text field.name)]
    ++ if field.type = .string then [(6, .int32 0)] else []

def footer (table : Table Float) (groups : List (List (Nat × Field))) : List UInt8 :=
  let root : List (Nat × Field) := [(4, .text "root"), (5, .int32 table.fields.length)]
  Field.bytes (.record [
    (1, .int32 2),
    (2, Field.records (root :: table.fields.map schemaElement)),
    (3, .int64 table.rowCount),
    (4, Field.records groups),
    (5, Field.records (table.metadata.map fun (key, value) => [(1, .text key), (2, .text value)]))])

def ofTable (table : Table Float) : ByteArray :=
  let groups := rowGroups table.fields magic.length table.chunks
  let footer := footer table groups.records
  ⟨(magic ++ groups.bytes ++ footer ++ littleEndian 4 footer.length ++ magic).toArray⟩

end Unnest.Parquet
