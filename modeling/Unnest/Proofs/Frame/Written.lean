import Unnest.Frame.Reader
import Unnest.Proofs.Json.Value

/-!
# Written frames are read back

`Frame.again?` is what the text of a frame says: its cells and the numbers of its metadata are read again,
metadata whose text is null is none, and a double that has no text is refused. Reading the text of a frame
gives just that (`Frame.reads_toJson`), and so does reading the text of a file
(`Frame.readList_renderFile`).
-/

namespace Unnest
open Text Json

/-! ### Cells of one type -/

namespace Json

/-- The double that the text of a double says, if it has one. -/
def floatAgain? (x : Float) : Option Float := ((Number.real x).again.number?).map Number.toFloat

theorem render_ofFloat (place : Option Nat) (x : Float) :
    render place (ofFloat x) = (Number.real x).render := by
  rw [ofFloat, Number.render]
  split
  · rename_i hx
    rw [render, Number.render, if_pos hx]
  · rw [render]

theorem expectFloat_skipSpace (input : List Symbol) : expectFloat (skipSpace input) = expectFloat input := by
  rw [expectFloat, expectFloat, skipSpace_skipSpace]

theorem expectString_skipSpace (input : List Symbol) : expectString (skipSpace input) = expectString input := by
  rw [expectString, expectString, skipSpace_skipSpace]

theorem expectBool_skipSpace (input : List Symbol) : expectBool (skipSpace input) = expectBool input := by
  rw [expectBool, expectBool, skipSpace_skipSpace]

theorem expectList_skipSpace {α : Type} {item : Nat → Reader α} {depth : Nat} (input : List Symbol) :
    expectList item depth (skipSpace input) = expectList item depth input := by
  unfold expectList
  rw [skipSpace_skipSpace]

theorem reads_expectFloat (x : Float) (place : Option Nat) :
    Reads expectFloat (render place (ofFloat x)) (floatAgain? x) := by
  refine reads_of_skipSpace expectFloat_skipSpace (starts_render place _) fun rest hrest => ?_
  rw [render_ofFloat, floatAgain?]
  cases hx : (Number.real x).isFinite with
  | false =>
    rw [render_of_not_finite hx, again_of_not_finite hx]
    rfl
  | true =>
    obtain ⟨m, hread⟩ := exists_readNumber hx
    obtain ⟨c, cs, htext, hc⟩ := exists_startsNumber hx
    rw [again_of_readNumber hread]
    have hread := hread rest hrest
    rw [htext, List.map_cons, List.cons_append] at hread ⊢
    rw [expectFloat, skipSpace_cons (isSpace_of_startsNumber hc)]
    simp only
    rw [if_pos (isNumber_of_startsNumber hc), hread]
    rfl

theorem reads_expectString (s : String) (place : Option Nat) :
    Reads expectString (render place (.string s)) (some s) := by
  refine reads_of_skipSpace expectString_skipSpace (starts_render place _) fun rest _ => ?_
  have hread := readString_quote s rest
  rw [render, quote, List.cons_append, List.map_cons, List.cons_append, expectString, skipSpace_cons rfl]
  simp only
  rw [hread]
  rfl

theorem reads_expectBool (b : Bool) (place : Option Nat) :
    Reads expectBool (render place (.bool b)) (some b) := by
  refine reads_of_skipSpace expectBool_skipSpace (starts_render place _) fun rest _ => ?_
  cases b <;> rw [expectBool, render] <;> rfl

theorem reads_expectList {α β : Type} {item : Nat → Reader β} (toJson : α → Json) {again : α → Option β}
    {depth : Nat} {as : List α}
    (h : ∀ a ∈ as, ∀ place, Reads (item depth) (render place (toJson a)) (again a)) (place : Option Nat) :
    Reads (expectList item (depth + 1)) (render place (.array (as.map toJson))) (as.mapM again) := by
  refine reads_of_skipSpace expectList_skipSpace (starts_render place _) fun rest _ => ?_
  obtain ⟨body, hbody⟩ := exists_render_array place (as.map toJson)
  have hread := readList_render toJson again (fun a _ => starts_render _ (toJson a)) (fun a ha => h a ha _) hbody rest
  rw [hbody, List.map_cons, List.cons_append, ← hread]
  rfl

end Json

/-! ### Columns -/

namespace Cells

/-- The cells that the text of cells says. -/
def again? : Cells Float → Option (Cells Float)
  | float64 xs => (xs.mapM floatAgain?).map float64
  | cells => some cells

/-- The list of cells in the text of cells. -/
def items : Cells Float → List Json
  | float64 xs => xs.map ofFloat
  | string xs => xs.map .string
  | bool xs => xs.map .bool

theorem toJson_eq (cells : Cells Float) : cells.toJson = .object [(cells.type.name, .array cells.items)] := by
  cases cells <;> rfl

theorem ofName?_name (type : ScalarType) : ScalarType.ofName? type.name = some type := by
  cases type <;> rfl

theorem mapM_some {α : Type} (as : List α) : as.mapM some = some as := by
  have h : as.mapM (fun a => (pure (id a) : Option α)) = pure (as.map id) := List.mapM_pure
  rwa [List.map_id] at h

theorem reads_readTyped {depth : Nat} (cells : Cells Float) (place : Option Nat) :
    Reads (readTyped cells.type (depth + 1)) (render place (.array cells.items)) cells.again? := by
  cases cells with
  | float64 xs =>
    have hread : Reads (expectList (fun _ => expectFloat) (depth + 1)) (render place (.array (xs.map ofFloat)))
        (xs.mapM floatAgain?) := reads_expectList ofFloat (fun x _ => reads_expectFloat x) place
    exact hread.map float64
  | string xs =>
    have hread : Reads (expectList (fun _ => expectString) (depth + 1)) (render place (.array (xs.map .string)))
        (xs.mapM some) := reads_expectList .string (fun s _ => reads_expectString s) place
    rw [mapM_some] at hread
    exact hread.map string
  | bool xs =>
    have hread : Reads (expectList (fun _ => expectBool) (depth + 1)) (render place (.array (xs.map .bool)))
        (xs.mapM some) := reads_expectList .bool (fun b _ => reads_expectBool b) place
    rw [mapM_some] at hread
    exact hread.map bool

theorem read_skipSpace {depth : Nat} (input : List Symbol) : read depth (skipSpace input) = read depth input := by
  unfold read
  rw [skipSpace_skipSpace]

/-- Reads the end of the object that holds the cells. -/
def closeCells : Cells Float × List Symbol → Except Failure (Cells Float × List Symbol)
  | (cells, rest) =>
    match skipSpace rest with
    | [] => .error (.here .endInObject [])
    | .char '}' :: rest => .ok (cells, rest)
    | rest => .error (.here .expectedValue rest)

theorem read_brace (depth : Nat) (input : List Symbol) :
    read (depth + 1) (.char '{' :: input) = expectString input >>= fun (name, rest) =>
      match ScalarType.ofName? name with
      | none => .error (.within .wrongShape 0 rest)
      | some type => readColon rest >>= fun input => readTyped type depth input >>= closeCells :=
  rfl

theorem closeCells_brace (cells : Cells Float) (place : Option Nat) (rest : List Symbol) :
    closeCells (cells, (lineBreak place).map .char ++ .char '}' :: rest) = .ok (cells, rest) := by
  rw [closeCells, skipSpace_append (isSpace_lineBreak place), skipSpace_cons rfl]
  rfl

theorem reads_read {depth : Nat} (cells : Cells Float) (place : Option Nat) :
    Reads (read (depth + 2)) (render place cells.toJson) cells.again? := by
  refine reads_of_skipSpace read_skipSpace (starts_render place _) fun rest hrest => ?_
  obtain ⟨items, hitems⟩ : ∃ items, items = render (place.map (· + 1)) (.array cells.items) := ⟨_, rfl⟩
  obtain ⟨close, hclose⟩ : ∃ close, close = (lineBreak place).map Symbol.char ++ .char '}' :: rest := ⟨_, rfl⟩
  have htext : (render place cells.toJson).map .char ++ rest
      = .char '{' :: ((lineBreak (place.map (· + 1))).map .char
        ++ ((render none (.string cells.type.name)).map .char ++ ((colon place ++ items).map .char ++ close))) := by
    rw [toJson_eq, render, render, hitems, hclose]
    simp [renderMembers]
  have hname := reads_expectString cells.type.name none _ ((colon place ++ items).map .char ++ close)
    (isSpace_lineBreak (place.map (· + 1))) (by cases place <;> exact ends_cons.2 rfl)
  have hcells := (hitems ▸ reads_readTyped cells (place.map (· + 1)) :
    Reads (readTyped cells.type (depth + 1)) items cells.again?).after_colon place
    (hclose ▸ ends_append (isSpace_lineBreak place) (ends_cons.2 rfl)) closeCells
  -- the name, the colon, the cells and the closing brace, in this order
  rw [htext, read_brace, toOption_bind, hname, Option.map_some, Option.bind_some]
  simp only [ofName?_name]
  rw [hcells, hclose]
  simp only [closeCells_brace]
  cases cells.again? <;> rfl

end Cells

namespace Json

/-- A field that has been read once more, when it was not known. -/
def fieldAgain? {β : Type} (known answer : Option β) : Option (Option β) :=
  if known.isSome then none else answer.map some

theorem expectField_colon {β : Type} {value : Reader β} {text : List Char} {answer : Option β}
    (h : Reads value text answer) (known : Option β) (place : Option Nat) {rest : List Symbol} (hrest : Ends rest) :
    (expectField known value ((colon place ++ text).map .char ++ rest)).toOption
      = (fieldAgain? known answer).map (·, rest) := by
  rw [fieldAgain?]
  cases known with
  | some b => rfl
  | none =>
    refine (h.after_colon place hrest fun x => .ok (some x.1, x.2)).trans ?_
    cases answer <;> rfl

end Json

namespace Column

/-- The column that the text of a column says. -/
def again? (column : Column Float) : Option (Column Float) :=
  column.cells.again?.map fun cells => { column with cells }

/-- What a member of a written column adds to the fields read before it. -/
def memberAgain? (column : Column Float) (known : Fields) (m : String × Json) : Option Fields :=
  if m.1 = "name" then (fieldAgain? known.name (some column.name)).map fun name => { known with name }
  else (fieldAgain? known.cells column.cells.again?).map fun cells => { known with cells }

theorem read_skipSpace {depth : Nat} (input : List Symbol) : read depth (skipSpace input) = read depth input := by
  unfold read
  rw [skipSpace_skipSpace]

theorem read_brace (depth : Nat) (input : List Symbol) :
    read (depth + 1) (.char '{' :: input)
      = readMembers (readMember depth) {} input >>= fun (known, rest) => known.finish rest :=
  rfl

theorem readMember_name {column : Column Float} {depth : Nat} (place : Option Nat) (known : Fields)
    {rest : List Symbol} (hrest : Ends rest) :
    (readMember depth known "name"
        ((colon place ++ render (place.map (· + 1)) (.string column.name)).map .char ++ rest)).toOption
      = (column.memberAgain? known ("name", .string column.name)).map (·, rest) := by
  have h := expectField_colon (reads_expectString column.name (place.map (· + 1))) known.name place hrest
  refine (toOption_bind _ _).trans ?_
  rw [h, memberAgain?, if_pos rfl]
  cases fieldAgain? known.name (some column.name) <;> rfl

theorem readMember_values {column : Column Float} {depth : Nat} (place : Option Nat) (known : Fields)
    {rest : List Symbol} (hrest : Ends rest) :
    (readMember (depth + 2) known "values"
        ((colon place ++ render (place.map (· + 1)) column.cells.toJson).map .char ++ rest)).toOption
      = (column.memberAgain? known ("values", column.cells.toJson)).map (·, rest) := by
  have hread : Reads (Cells.read (depth + 2)) _ _ := Cells.reads_read column.cells (place.map (· + 1))
  have h := expectField_colon hread known.cells place hrest
  refine (toOption_bind _ _).trans ?_
  rw [h, memberAgain?, if_neg (show "values" ≠ "name" by decide)]
  cases fieldAgain? known.cells column.cells.again? <;> rfl

theorem reads_read {depth : Nat} (column : Column Float) (place : Option Nat) :
    Reads (read (depth + 3)) (render place column.toJson) column.again? := by
  refine reads_of_skipSpace read_skipSpace (starts_render place _) fun rest _ => ?_
  rw [toJson]
  obtain ⟨body, hbody⟩ := exists_render_object place
    [("name", Json.string column.name), ("values", column.cells.toJson)]
  have hmembers := readMembers_render (readMember (depth + 2)) column.memberAgain?
    (fun m hm known rest hrest => by
      rcases List.mem_cons.1 hm with rfl | hm
      · exact readMember_name place known hrest
      · rw [List.mem_singleton.1 hm]
        exact readMember_values place known hrest) hbody {} rest
  rw [hbody, List.map_cons, List.cons_append, read_brace, toOption_bind, hmembers, again?]
  cases hcells : column.cells.again? with
  | none => simp [memberAgain?, fieldAgain?, hcells]
  | some cells => simp [memberAgain?, fieldAgain?, hcells, Fields.finish]

end Column

/-! ### Frames -/

namespace Frame

/-- Null metadata is none. -/
def nonNull? : Json → Option Json
  | .null => none
  | value => some value

/-- The frame that the text of a frame says. -/
def again? (frame : Frame Float) : Option (Frame Float) :=
  (frame.columns.mapM Column.again?).map fun columns =>
    { frame with columns, metadata := frame.metadata.bind fun value => nonNull? value.again }

/-- What a member of a written frame adds to the fields read before it. -/
def memberAgain? (frame : Frame Float) (known : Fields) (m : String × Json) : Option Fields :=
  if m.1 = "name" then (fieldAgain? known.name (some frame.name)).map fun name => { known with name }
  else if m.1 = "columns" then
    (fieldAgain? known.columns (frame.columns.mapM Column.again?)).map fun columns => { known with columns }
  else (fieldAgain? known.metadata (some (nonNull? m.2.again))).map fun metadata => { known with metadata }

theorem readMember_name {frame : Frame Float} {depth : Nat} (place : Option Nat) (known : Fields)
    {rest : List Symbol} (hrest : Ends rest) :
    (readMember depth known "name"
        ((colon place ++ render (place.map (· + 1)) (.string frame.name)).map .char ++ rest)).toOption
      = (frame.memberAgain? known ("name", .string frame.name)).map (·, rest) := by
  have h := expectField_colon (reads_expectString frame.name (place.map (· + 1))) known.name place hrest
  refine (toOption_bind _ _).trans ?_
  rw [h, memberAgain?, if_pos rfl]
  cases fieldAgain? known.name (some frame.name) <;> rfl

theorem readMember_columns {frame : Frame Float} {depth : Nat} (place : Option Nat) (known : Fields)
    {rest : List Symbol} (hrest : Ends rest) :
    (readMember (depth + 4) known "columns"
        ((colon place ++ render (place.map (· + 1)) (.array (frame.columns.map Column.toJson))).map .char
          ++ rest)).toOption
      = (frame.memberAgain? known ("columns", .array (frame.columns.map Column.toJson))).map (·, rest) := by
  have hread : Reads (expectList Column.read (depth + 4)) _ (frame.columns.mapM Column.again?) :=
    reads_expectList Column.toJson (fun column _ => Column.reads_read column) (place.map (· + 1))
  have h := expectField_colon hread known.columns place hrest
  refine (toOption_bind _ _).trans ?_
  rw [h, memberAgain?, if_neg (show "columns" ≠ "name" by decide), if_pos rfl]
  cases fieldAgain? known.columns (frame.columns.mapM Column.again?) <;> rfl

theorem reads_readMetadata {depth : Nat} {value : Json} (hvalue : Readable depth value) (place : Option Nat) :
    Reads (readMetadata depth) (render place value) (some (nonNull? value.again)) :=
  (hvalue.reads_render place).map nonNull?

theorem readMember_metadata {frame : Frame Float} {depth : Nat} {value : Json} (hvalue : Readable depth value)
    (place : Option Nat) (known : Fields) {rest : List Symbol} (hrest : Ends rest) :
    (readMember depth known "meta" ((colon place ++ render (place.map (· + 1)) value).map .char ++ rest)).toOption
      = (frame.memberAgain? known ("meta", value)).map (·, rest) := by
  have h := expectField_colon (reads_readMetadata hvalue (place.map (· + 1))) known.metadata place hrest
  refine (toOption_bind _ _).trans ?_
  rw [h, memberAgain?, if_neg (show "meta" ≠ "name" by decide), if_neg (show "meta" ≠ "columns" by decide)]
  cases fieldAgain? known.metadata (some (nonNull? value.again)) <;> rfl

theorem read_skipSpace {depth : Nat} (input : List Symbol) : read depth (skipSpace input) = read depth input := by
  unfold read
  rw [skipSpace_skipSpace]

theorem read_brace (depth : Nat) (input : List Symbol) :
    read (depth + 1) (.char '{' :: input)
      = readMembers (readMember depth) {} input >>= fun (known, rest) => known.finish rest :=
  rfl

/-- The text of a frame is read as that frame again, if its metadata can be read at all. -/
theorem reads_toJson {depth : Nat} {frame : Frame Float}
    (hmetadata : ∀ value ∈ frame.metadata, Readable (depth + 4) value) (place : Option Nat) :
    Reads (read (depth + 5)) (render place frame.toJson) frame.again? := by
  refine reads_of_skipSpace read_skipSpace (starts_render place _) fun rest _ => ?_
  rw [toJson]
  obtain ⟨body, hbody⟩ := exists_render_object place
    ([("name", Json.string frame.name), ("columns", .array (frame.columns.map Column.toJson))]
      ++ frame.metadata.toList.map fun value => ("meta", value))
  have hmembers := readMembers_render (readMember (depth + 4)) frame.memberAgain?
    (fun m hm known rest hrest => by
      rcases List.mem_append.1 hm with hm | hm
      · rcases List.mem_cons.1 hm with rfl | hm
        · exact readMember_name place known hrest
        · rw [List.mem_singleton.1 hm]
          exact readMember_columns place known hrest
      · obtain ⟨value, hvalue, rfl⟩ := List.mem_map.1 hm
        exact readMember_metadata (hmetadata value (Option.mem_toList.1 hvalue)) place known hrest) hbody {} rest
  rw [hbody, List.map_cons, List.cons_append, read_brace, toOption_bind, hmembers, again?]
  -- a column that cannot be read stops the frame, as it stops the fold over its members
  cases hcolumns : frame.columns.mapM Column.again? with
  | none => simp [memberAgain?, fieldAgain?, hcolumns]
  | some columns =>
    cases frame.metadata <;> simp [memberAgain?, fieldAgain?, hcolumns, Fields.finish]

/-- The text of a file is read as its frames again. -/
theorem readList_renderFile {frames : List (Frame Float)}
    (hmetadata : ∀ frame ∈ frames, ∀ value ∈ frame.metadata, Readable 125 value) :
    (readList (Symbol.ofString (renderFile frames))).toOption = frames.mapM again? := by
  have hread : Reads (expectList read nestingLimit) _ (frames.mapM again?) :=
    reads_expectList toJson (fun frame hframe => reads_toJson (hmetadata frame hframe)) (some 0)
  have htext : Symbol.ofString (renderFile frames)
      = (render (some 0) (.array (frames.map toJson))).map .char ++ [] := by
    rw [Symbol.ofString, renderFile, pretty, String.toList_ofList, List.append_nil]
  rw [readList, readAll, htext, toOption_bind, hread.directly ends_nil]
  cases frames.mapM again? <;> rfl

end Frame

end Unnest
