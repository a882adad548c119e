import Mathlib.Data.List.Nodup
import Unnest.Frame.Basic
import Unnest.Proofs.Column

/-!
# Well-formed frames

`Frame.validate` accepts a frame exactly if all columns are as long as the first and no name occurs twice.
A frame that keeps the columns of another and adds `Extension` columns is accepted whenever the other is.
-/

namespace Unnest.Frame
variable {α : Type}

theorem validateColumns_eq_ok {name : String} {expected : Nat} {seen : List String}
    {columns : List (Column α)} : validateColumns name expected seen columns = .ok () ↔
      (∀ column ∈ columns, column.length = expected) ∧ (columns.map Column.name).Nodup ∧
        ∀ column ∈ columns, column.name ∉ seen := by
  induction columns generalizing seen with
  | nil => simp [validateColumns]
  | cons column rest ih =>
    rw [validateColumns]
    split
    · rename_i hl
      exact ⟨nofun, fun h => absurd (h.1 column List.mem_cons_self) hl⟩
    · rename_i hl
      split
      · rename_i hs
        exact ⟨nofun, fun h => absurd hs (h.2.2 column List.mem_cons_self)⟩
      · rename_i hs
        rw [ih, List.map_cons, List.nodup_cons]
        constructor
        · rintro ⟨hlen, hnd, hseen⟩
          refine ⟨?_, ⟨?_, hnd⟩, ?_⟩
          · rintro c (_ | ⟨_, hc⟩)
            · exact not_not.1 hl
            · exact hlen c hc
          · intro hm
            obtain ⟨c, hc, he⟩ := List.mem_map.1 hm
            exact hseen c hc (he ▸ List.mem_cons_self)
          · rintro c (_ | ⟨_, hc⟩)
            · exact hs
            · exact fun hm => hseen c hc (List.mem_cons_of_mem _ hm)
        · rintro ⟨hlen, ⟨hfirst, hnd⟩, hseen⟩
          refine ⟨fun c hc => hlen c (List.mem_cons_of_mem _ hc), hnd, fun c hc hm => ?_⟩
          rcases List.mem_cons.1 hm with he | hm
          · exact hfirst (he ▸ List.mem_map_of_mem hc)
          · exact hseen c (List.mem_cons_of_mem _ hc) hm

theorem validate_eq_ok {frame : Frame α} : frame.validate = .ok () ↔
    (∀ column ∈ frame.columns, column.length = frame.rowCount) ∧ frame.columnNames.Nodup := by
  rw [validate, validateColumns_eq_ok]
  exact and_congr_right fun _ => and_iff_left fun _ _ => List.not_mem_nil

/-- Whether a frame is well-formed is a matter of the names and lengths of its columns. -/
theorem validate_congr {frame frame' : Frame α}
    (h : frame'.columns.map (fun column => (column.name, column.length)) =
      frame.columns.map fun column => (column.name, column.length)) :
    frame'.validate = .ok () ↔ frame.validate = .ok () := by
  have hshape : ∀ f : Frame α, f.validate = .ok () ↔
      (∀ shape ∈ f.columns.map fun column => (column.name, column.length),
        shape.2 = (f.columns.map fun column => (column.name, column.length)).head?.elim 0 Prod.snd) ∧
      ((f.columns.map fun column => (column.name, column.length)).map Prod.fst).Nodup := by
    intro f
    rw [validate_eq_ok, List.forall_mem_map, List.head?_map, List.map_map]
    cases hc : f.columns <;> simp [rowCount, columnNames, hc, Function.comp_def]
  rw [hshape, hshape, h]

theorem lt_rowCount {frame : Frame α} {position row : Nat} {source : Column α} {cells : List String} {raw : String}
    (hv : frame.validate = .ok ()) (hs : frame.columns[position]? = some source)
    (hc : source.strings? = some cells) (hraw : cells[row]? = some raw) : row < frame.rowCount := by
  have hlen : source.length = frame.rowCount := (validate_eq_ok.1 hv).1 source (List.mem_of_getElem? hs)
  rw [← hlen, Column.length_of_strings? hc]
  exact (List.getElem?_eq_some_iff.1 hraw).1

/-- Columns that can be added to a frame: they have its row count and new names. -/
structure Extension (frame : Frame α) (added : List (Column α)) : Prop where
  even : ∀ column ∈ added, column.length = frame.rowCount
  nodup : (added.map Column.name).Nodup
  free : ∀ column ∈ added, column.name ∉ frame.columnNames

/-- A frame keeps the name, the metadata and the columns of another and adds columns to it. -/
structure Extends (frame' frame : Frame α) : Prop where
  name : frame'.name = frame.name
  metadata : frame'.metadata = frame.metadata
  columns : ∃ added, frame'.columns = frame.columns ++ added ∧ frame.Extension added

theorem Extension.nil (frame : Frame α) : frame.Extension [] :=
  ⟨fun _ h => absurd h List.not_mem_nil, List.nodup_nil, fun _ h => absurd h List.not_mem_nil⟩

theorem Extends.refl (frame : Frame α) : frame.Extends frame :=
  ⟨rfl, rfl, [], (List.append_nil _).symm, Extension.nil frame⟩

namespace Extends
variable {frame frame' : Frame α}

theorem rowCount (h : frame'.Extends frame) : frame'.rowCount = frame.rowCount := by
  obtain ⟨added, ha, hadded⟩ := h.columns
  cases hc : frame.columns with
  | cons first rest => simp [Frame.rowCount, ha, hc]
  | nil =>
    cases added with
    | nil => simp [Frame.rowCount, ha, hc]
    | cons column rest =>
      rw [← hadded.even column List.mem_cons_self]
      simp [Frame.rowCount, ha, hc]

theorem validate (h : frame'.Extends frame) (hv : frame.validate = .ok ()) : frame'.validate = .ok () := by
  obtain ⟨heven, hnd⟩ := validate_eq_ok.1 hv
  rw [validate_eq_ok, h.rowCount]
  obtain ⟨added, ha, hadded⟩ := h.columns
  rw [columnNames, ha, List.map_append]
  refine ⟨fun column hc => ?_, List.nodup_append.2 ⟨hnd, hadded.nodup, ?_⟩⟩
  · rcases List.mem_append.1 hc with hc | hc
    · exact heven column hc
    · exact hadded.even column hc
  · intro a hm b hb hab
    obtain ⟨column, hc, rfl⟩ := List.mem_map.1 hb
    exact hadded.free column hc (hab ▸ hm)

end Extends

/-- What flattening does for a frame: it extends it, and it keeps its row count and its well-formedness. -/
structure Preserves (frame' frame : Frame α) : Prop where
  extension : frame'.Extends frame
  rowCount : frame'.rowCount = frame.rowCount
  validate : frame.validate = .ok () → frame'.validate = .ok ()

theorem Extends.preserves {frame frame' : Frame α} (h : frame'.Extends frame) : frame'.Preserves frame :=
  ⟨h, h.rowCount, h.validate⟩

end Unnest.Frame
