import Mathlib.Data.List.Forall2
import Unnest.Proofs.Frame
import Unnest.Proofs.Frame.Read
import Unnest.Proofs.Frame.Written
import Unnest.Proofs.Text.Symbol

/-!
# Files that are read and written

A file that was read can be written and read again: what comes back is what its text says
(`parseFile_toUTF8`), and the very frames if all their doubles are read back (`parseFile_renderFile`).
-/

namespace Unnest
open Text Json

namespace Frame

/-- The doubles in the cells and in the metadata of a frame. -/
def floats (frame : Frame Float) : List Float :=
  (frame.columns.flatMap fun column => column.cells.floats) ++ frame.metadata.elim [] Json.floats

deriving instance DecidableEq for Frame

/-! ### Writing and reading -/

theorem parseFile_eq_ok {content : ByteArray} {frames : List (Frame Float)} :
    parseFile content = .ok frames ↔
      readList (Symbol.ofBytes content) = .ok frames ∧ validateAll frames = .ok () := by
  rw [parseFile]
  cases readList (Symbol.ofBytes content) with
  | error failure => exact ⟨nofun, nofun⟩
  | ok found =>
    simp only [Except.ok.injEq]
    constructor
    · intro h
      split at h
      · cases h
      · rename_i hvalid
        cases h
        exact ⟨rfl, hvalid⟩
    · rintro ⟨rfl, hvalid⟩
      rw [hvalid]

/-- A file that is written is read as what its text says, if that passes the checks. -/
theorem parseFile_toUTF8 {frames again : List (Frame Float)}
    (hmetadata : ∀ frame ∈ frames, ∀ value ∈ frame.metadata, Readable 125 value) :
    parseFile (renderFile frames).toUTF8 = .ok again ↔
      frames.mapM again? = some again ∧ validateAll again = .ok () := by
  rw [parseFile_eq_ok, Symbol.ofBytes_toUTF8, ← toOption_eq_some, readList_renderFile hmetadata]

/-! ### Frames that can be read again -/

theorem mapM_eq_some {α β : Type} {f : α → Option β} {as : List α} {bs : List β} :
    as.mapM f = some bs ↔ List.Forall₂ (fun a b => f a = some b) as bs := by
  induction as generalizing bs with
  | nil => simp [eq_comm]
  | cons a as ih =>
    rw [List.mapM_cons, List.forall₂_cons_left_iff]
    cases ha : f a with
    | none => simp
    | some b =>
      simp only [← ih, Option.some.injEq]
      cases hrest : as.mapM f <;> simp [eq_comm]

theorem isSome_floatAgain? {x : Float} : (floatAgain? x).isSome ↔ x.isFinite = true := by
  have hfinite : (Number.real x).isFinite = x.isFinite := rfl
  rw [floatAgain?, ← hfinite]
  cases hx : (Number.real x).isFinite with
  | false => simp [again_of_not_finite hx, number?]
  | true =>
    obtain ⟨m, hread⟩ := exists_readNumber hx
    simp [again_of_readNumber hread, number?]

theorem isSome_again?_cells {cells : Cells Float} : cells.again?.isSome ↔ cells.Finite := by
  cases cells with
  | float64 xs =>
    rw [Cells.again?, Option.isSome_map, isSome_mapM]
    exact forall₂_congr fun x _ => isSome_floatAgain?
  | string xs => exact iff_of_true rfl nofun
  | bool xs => exact iff_of_true rfl nofun

theorem isSome_again? {frame : Frame Float} :
    frame.again?.isSome ↔ ∀ column ∈ frame.columns, column.cells.Finite := by
  rw [again?, Option.isSome_map, isSome_mapM]
  refine forall₂_congr fun column _ => ?_
  rw [Column.again?, Option.isSome_map, isSome_again?_cells]

theorem length_again?_cells {cells cells' : Cells Float} (h : cells.again? = some cells') :
    cells'.length = cells.length := by
  cases cells with
  | float64 xs =>
    obtain ⟨ys, hys, rfl⟩ := Option.map_eq_some_iff.1 h
    exact (mapM_eq_some.1 hys).length_eq.symm
  | string xs =>
    cases h
    rfl
  | bool xs =>
    cases h
    rfl

/-- What is read again has the shape of what was written. -/
theorem validate_again? {frame again : Frame Float} (h : frame.again? = some again)
    (hv : frame.validate = .ok ()) : again.validate = .ok () := by
  obtain ⟨columns, hcolumns, rfl⟩ := Option.map_eq_some_iff.1 h
  have hshape : columns.map (fun column => (column.name, column.length)) =
      frame.columns.map fun column => (column.name, column.length) := by
    rw [← List.forall₂_eq_eq_eq, List.forall₂_map_left_iff, List.forall₂_map_right_iff]
    refine ((mapM_eq_some.1 hcolumns).imp fun column column' hcolumn => ?_).flip
    obtain ⟨cells, hcells, rfl⟩ := Option.map_eq_some_iff.1 hcolumn
    exact congrArg (column.name, ·) (length_again?_cells hcells)
  exact (validate_congr hshape).2 hv

theorem validateAll_eq_ok {frames : List (Frame Float)} :
    validateAll frames = .ok () ↔ ∀ frame ∈ frames, frame.validate = .ok () := by
  induction frames with
  | nil => exact iff_of_true rfl nofun
  | cons frame rest ih =>
    rw [List.forall_mem_cons, ← ih, validateAll]
    cases frame.validate <;> simp [Except.bind]

theorem validateAll_of_mapM {frames again : List (Frame Float)} (h : frames.mapM again? = some again)
    (hvalid : ∀ frame ∈ frames, frame.validate = .ok ()) : validateAll again = .ok () := by
  rw [validateAll_eq_ok]
  induction mapM_eq_some.1 h with
  | nil => nofun
  | cons hfirst hrest ih =>
    rw [List.forall_mem_cons] at *
    exact ⟨validate_again? hfirst hvalid.1, ih (mapM_eq_some.2 hrest) hvalid.2⟩

/-- A file that is written can be read again exactly if its frames are well-formed and all cells are finite. -/
theorem exists_parseFile_iff {frames : List (Frame Float)}
    (hmetadata : ∀ frame ∈ frames, ∀ value ∈ frame.metadata, Readable 125 value)
    (hvalid : ∀ frame ∈ frames, frame.validate = .ok ()) :
    (∃ again, parseFile (renderFile frames).toUTF8 = .ok again) ↔
      ∀ frame ∈ frames, ∀ column ∈ frame.columns, column.cells.Finite := by
  have hsome : (frames.mapM again?).isSome ↔ ∀ frame ∈ frames, ∀ column ∈ frame.columns, column.cells.Finite := by
    rw [isSome_mapM]
    exact forall₂_congr fun frame _ => isSome_again?
  rw [← hsome, Option.isSome_iff_exists]
  exact exists_congr fun again => (parseFile_toUTF8 hmetadata).trans
    (and_iff_left_of_imp fun hagain => validateAll_of_mapM hagain hvalid)

/-! ### Frames that come back unchanged -/

/-- The reader gives a double back when it reads its text. -/
def ReadsBack (x : Float) : Prop :=
  readNumber ((Number.real x).render.map .char) = .ok (.real x, [])

theorem ReadsBack.again {x : Float} (h : ReadsBack x) : (Number.real x).again = .number (.real x) := by
  rw [Number.again, h]

theorem again?_cells {cells : Cells Float} (h : ∀ x ∈ cells.floats, ReadsBack x) :
    cells.again? = some cells := by
  cases cells with
  | float64 xs =>
    have hcells : xs.mapM floatAgain? = some xs :=
      mapM_eq_some.2 <| List.forall₂_same.2 fun x hx => by
        rw [floatAgain?, (h x hx).again]
        rfl
    rw [Cells.again?, hcells]
    rfl
  | string xs => rfl
  | bool xs => rfl

theorem again?_column {column : Column Float} (h : ∀ x ∈ column.cells.floats, ReadsBack x) :
    column.again? = some column := by
  rw [Column.again?, again?_cells h]
  rfl

theorem again?_eq_some_self {frame : Frame Float} (hsound : Sound 125 frame.columns frame.metadata)
    (h : ∀ x ∈ frame.floats, ReadsBack x) : frame.again? = some frame := by
  obtain ⟨name, columns, metadata⟩ := frame
  have hcolumns : columns.mapM Column.again? = some columns :=
    mapM_eq_some.2 <| List.forall₂_same.2 fun column hcolumn => again?_column fun x hx =>
      h x (List.mem_append_left _ (List.mem_flatMap.2 ⟨column, hcolumn, hx⟩))
  rw [again?, hcolumns]
  cases metadata with
  | none => rfl
  | some value =>
    have hvalue : value.again = value :=
      (hsound.readable value rfl).again_eq_self fun x hx => (h x (List.mem_append_right _ hx)).again
    have hsome : nonNull? value = some value := by
      cases value <;> first | rfl | exact absurd rfl (hsound.notNull _ rfl)
    simp [hvalue, hsome]

/-- What was read from a file is read again from its text, if every double in it is read back. -/
theorem parseFile_renderFile {content : ByteArray} {frames : List (Frame Float)}
    (h : parseFile content = .ok frames)
    (hfloats : ∀ frame ∈ frames, ∀ x ∈ frame.floats, ReadsBack x) :
    parseFile (renderFile frames).toUTF8 = .ok frames := by
  obtain ⟨hread, hvalid⟩ := parseFile_eq_ok.1 h
  have hsound := sound_of_readList hread
  refine (parseFile_toUTF8 fun frame hframe => (hsound frame hframe).readable).2
    ⟨mapM_eq_some.2 <| List.forall₂_same.2 fun frame hframe => ?_, hvalid⟩
  exact again?_eq_some_self (hsound frame hframe) (hfloats frame hframe)

/-- A frame that is an array, with the fields of its column in another order and escapes in a name. -/
def compactFile : String :=
  "[[\"f\", [\x7b\"values\": \x7b\"float64\": [0.5, -2.5e0]\x7d, \"name\": \"a\\\"\\u0001\"\x7d], " ++
    "\x7b\"k\": [1, -2, 2.5], \"b\": \x7b\x7d\x7d]]"

def compactFrame : Frame Float :=
  { name := "f"
    columns := [⟨"a\"\x01", .float64 [0.5, -2.5]⟩]
    metadata := some (.object
      [("k", .array [.number (.natural 1), .number (.negative (-2)), .number (.real 2.5)]), ("b", .object [])]) }

theorem parseFile_renderFile_compactFile :
    parseFile compactFile.toUTF8 = .ok [compactFrame] ∧ (∀ x ∈ compactFrame.floats, ReadsBack x) ∧
      parseFile (renderFile [compactFrame]).toUTF8 = .ok [compactFrame] := by
  have hread : parseFile compactFile.toUTF8 = .ok [compactFrame] := by decide +kernel
  have hfloats : ∀ x ∈ compactFrame.floats, ReadsBack x := by
    unfold ReadsBack
    decide +kernel
  refine ⟨hread, hfloats, parseFile_renderFile hread fun frame hframe => ?_⟩
  obtain rfl := List.mem_singleton.1 hframe
  exact hfloats

end Frame

end Unnest
