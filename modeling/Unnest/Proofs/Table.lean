import Unnest.Proofs.Frame.RoundTrip
import Unnest.Table

/-!
# Tables hold frames

A frame is a table exactly if its columns are equally long (`ofFrame?_eq_ok`), and then nothing of it is lost:
`Table.toFrame?` rebuilds the frame from the fields, the metadata and the one chunk of its table. Fields must not
be nullable and their arrays must have their types. The metadata of the frame is read from its text, so it comes
back if that can be read and the doubles in it are read back (`holds_ofFrame`).
-/

namespace Unnest
open Text Json
variable {α : Type}

namespace Table

/-- The column that a field and its array make up. -/
def columnOf? (field : TableField) (cells : Cells α) : Option (Column α) :=
  if field.nullable = false ∧ cells.type = field.type then some ⟨field.name, cells⟩ else none

def columnsOf? : List TableField → List (Cells α) → Option (List (Column α))
  | [], [] => some []
  | field :: fields, cells :: arrays => do return (← columnOf? field cells) :: (← columnsOf? fields arrays)
  | _, _ => none

def name? (table : Table α) : Option String := Entries.get? table.metadata nameKey

/-- The columns of a table with one chunk. -/
def columns? (table : Table α) : Option (List (Column α)) :=
  match table.chunks with
  | [chunk] => columnsOf? table.fields chunk.arrays
  | _ => none

/-- The metadata that a text in the metadata of a table says, if there is such a text. -/
def metadata? (table : Table α) : Option (Option Json) :=
  match Entries.get? table.metadata metadataKey with
  | none => some none
  | some text => (Json.parse (Symbol.ofString text)).toOption.map some

def toFrame? (table : Table α) : Option (Frame α) := do
  return { name := ← table.name?, columns := ← table.columns?, metadata := ← table.metadata? }

/-- The table of a frame, whatever the lengths of its columns. -/
def ofFrame (frame : Frame α) : Table α where
  fields := frame.columns.map fieldOf
  metadata := metadataOf frame
  chunks := [⟨frame.columns.map Column.cells⟩]

theorem rowCount_chunk (frame : Frame α) :
    (⟨frame.columns.map Column.cells⟩ : Chunk α).rowCount = frame.rowCount := by
  rw [Chunk.rowCount, Frame.rowCount, List.head?_map]
  cases frame.columns.head? <;> rfl

theorem ofFrame?_eq_ok {frame : Frame α} {table : Table α} : ofFrame? frame = .ok table ↔
    (∀ column ∈ frame.columns, column.length = frame.rowCount) ∧ table = ofFrame frame := by
  have heven : ((frame.columns.map Column.cells).all fun cells => cells.length = frame.rowCount) = true ↔
      ∀ column ∈ frame.columns, column.length = frame.rowCount := by
    simp [Column.length]
  rw [ofFrame?, Chunk.ofArrays?, rowCount_chunk]
  by_cases h : ∀ column ∈ frame.columns, column.length = frame.rowCount
  · rw [if_pos (heven.2 h)]
    constructor
    · intro hok
      cases hok
      exact ⟨h, rfl⟩
    · rintro ⟨-, rfl⟩
      rfl
  · rw [if_neg (mt heven.1 h)]
    exact ⟨nofun, fun hok => absurd hok.1 h⟩

theorem ofFrame?_of_validate {frame : Frame α} (h : frame.validate = .ok ()) :
    ofFrame? frame = .ok (ofFrame frame) :=
  ofFrame?_eq_ok.2 ⟨(Frame.validate_eq_ok.1 h).1, rfl⟩

/-- All columns are as long as the first if any two of them are equally long. -/
theorem forall_length_iff {frame : Frame α} : (∀ column ∈ frame.columns, column.length = frame.rowCount) ↔
    ∀ a ∈ frame.columns, ∀ b ∈ frame.columns, a.length = b.length := by
  constructor
  · intro h a ha b hb
    rw [h a ha, h b hb]
  · intro h column hcolumn
    cases hfirst : frame.columns with
    | nil =>
      rw [hfirst] at hcolumn
      cases hcolumn
    | cons first rest =>
      have hrows : frame.rowCount = first.length := by rw [Frame.rowCount, hfirst]; rfl
      rw [hrows]
      exact h column hcolumn first (hfirst ▸ List.mem_cons_self)

theorem columnsOf?_fieldOf (columns : List (Column α)) :
    columnsOf? (columns.map fieldOf) (columns.map Column.cells) = some columns := by
  induction columns with
  | nil => rfl
  | cons column columns ih =>
    have hcolumn : columnOf? (fieldOf column) column.cells = some column := if_pos ⟨rfl, rfl⟩
    rw [List.map_cons, List.map_cons, columnsOf?, hcolumn, ih]
    rfl

theorem parse_compact {value : Json} (h : Readable nestingLimit value)
    (hfloats : ∀ x ∈ value.floats, Frame.ReadsBack x) :
    (Json.parse (Symbol.ofString value.compact)).toOption = some value := by
  have hread := (h.reads_render none).directly ends_nil
  rw [List.append_nil, h.again_eq_self fun x hx => (hfloats x hx).again] at hread
  rw [Json.parse, readAll, Symbol.ofString, compact, String.toList_ofList, toOption_bind, hread]
  rfl

/-- A table holds what a frame consists of, its metadata as far as that can be told from its text. -/
structure Holds (table : Table α) (frame : Frame α) : Prop where
  name : table.name? = some frame.name
  columns : table.columns? = some frame.columns
  chunk : ∃ chunk, table.chunks = [chunk] ∧ chunk.rowCount = frame.rowCount
  frame : (∀ value ∈ frame.metadata, Readable nestingLimit value ∧ ∀ x ∈ value.floats, Frame.ReadsBack x) →
    table.toFrame? = some frame

theorem holds_ofFrame (frame : Frame α) : (ofFrame frame).Holds frame := by
  have hname : (ofFrame frame).name? = some frame.name := by
    rw [name?, ofFrame, metadataOf]
    cases frame.metadata <;> rfl
  have hcolumns : (ofFrame frame).columns? = some frame.columns := columnsOf?_fieldOf frame.columns
  refine ⟨hname, hcolumns, ⟨_, rfl, rowCount_chunk frame⟩, fun hmetadata => ?_⟩
  have hread : (ofFrame frame).metadata? = some frame.metadata := by
    rw [metadata?, ofFrame, metadataOf]
    cases hvalue : frame.metadata with
    | none => rfl
    | some value =>
      obtain ⟨hreadable, hfloats⟩ := hmetadata value hvalue
      exact congrArg (Option.map some) (parse_compact hreadable hfloats)
  rw [toFrame?, hname, hcolumns, hread]
  rfl

end Table

end Unnest
