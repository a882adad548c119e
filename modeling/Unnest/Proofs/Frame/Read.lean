import Unnest.Frame.Reader
import Unnest.Proofs.Json.Value

/-!
# What is read from files of frames

The doubles in the cells of a frame that was read are finite, and its metadata can be read again where it
stood, whether the frame was an object or an array (`sound_of_readList`).
-/

namespace Unnest
open Text Json

/-- The doubles among cells. -/
def Cells.floats : Cells Float → List Float
  | float64 xs => xs
  | _ => []

namespace Json

theorem isFinite_of_expectFloat {input rest : List Symbol} {x : Float}
    (h : expectFloat input = .ok (x, rest)) : x.isFinite = true := by
  unfold expectFloat at h
  split at h
  · cases h
  · split at h
    · obtain ⟨⟨n, left⟩, hn, h⟩ := exists_of_bind_eq_ok h
      cases h
      exact (canonical_of_readNumber hn).isFinite_toFloat
    · cases h

theorem forall_of_expectList {α : Type} {item : Nat → Reader α} {p : α → Prop} {depth : Nat}
    {input rest : List Symbol} {as : List α}
    (hitem : ∀ d, depth = d + 1 → ∀ input a rest, item d input = .ok (a, rest) → p a)
    (h : expectList item depth input = .ok (as, rest)) : ∀ a ∈ as, p a := by
  unfold expectList at h
  split at h
  · cases h
  · exact forall_of_readList (hitem _ rfl) h
  · cases h

theorem exists_of_expectField {β : Type} {known answer : Option β} {value : Reader β} {input rest : List Symbol}
    (h : expectField known value input = .ok (answer, rest)) :
    ∃ b start, value start = .ok (b, rest) ∧ answer = some b := by
  unfold expectField at h
  split at h
  · cases h
  · obtain ⟨start, -, h⟩ := exists_of_bind_eq_ok h
    obtain ⟨⟨b, left⟩, hb, h⟩ := exists_of_bind_eq_ok h
    cases h
    exact ⟨b, start, hb, rfl⟩

theorem exists_of_nextField {β : Type} {first : Bool} {value : Reader β} {input rest : List Symbol} {b : β}
    (h : nextField first value input = .ok (some b, rest)) : ∃ start, value start = .ok (b, rest) := by
  obtain ⟨⟨more, start⟩, -, h⟩ := exists_of_bind_eq_ok h
  cases more with
  | false => cases h
  | true =>
    obtain ⟨⟨b, left⟩, hb, h⟩ := exists_of_bind_eq_ok h
    cases h
    exact ⟨start, hb⟩

end Json

section
variable {depth : Nat} {input rest : List Symbol}

/-! ### Columns -/

/-- All doubles among the cells are finite. -/
def Cells.Finite (cells : Cells Float) : Prop := ∀ x ∈ cells.floats, x.isFinite = true

theorem Cells.finite_of_readTyped {type : ScalarType} {cells : Cells Float}
    (h : readTyped type depth input = .ok (cells, rest)) : cells.Finite := by
  cases type with
  | float64 =>
    obtain ⟨⟨xs, left⟩, hxs, h⟩ := exists_of_bind_eq_ok h
    cases h
    exact forall_of_expectList (fun _ _ _ _ _ => isFinite_of_expectFloat) hxs
  | string =>
    obtain ⟨⟨xs, left⟩, -, h⟩ := exists_of_bind_eq_ok h
    cases h
    nofun
  | bool =>
    obtain ⟨⟨xs, left⟩, -, h⟩ := exists_of_bind_eq_ok h
    cases h
    nofun

theorem Cells.finite_of_read {cells : Cells Float} (h : read depth input = .ok (cells, rest)) : cells.Finite := by
  unfold read at h
  split at h
  · cases h
  · cases h
  · obtain ⟨⟨name, left⟩, -, h⟩ := exists_of_bind_eq_ok h
    simp only at h
    split at h
    · cases h
    · obtain ⟨start, -, h⟩ := exists_of_bind_eq_ok h
      obtain ⟨⟨cells, left⟩, hcells, h⟩ := exists_of_bind_eq_ok h
      simp only at h
      split at h
      · cases h
      · cases h
        exact finite_of_readTyped hcells
      · cases h
  · obtain ⟨_, -, h⟩ := exists_of_bind_eq_ok h
    cases h
  · cases h

namespace Column
variable {known next : Fields}

theorem finite_of_readMember {key : String} (hknown : ∀ cells ∈ known.cells, cells.Finite)
    (h : readMember depth known key input = .ok (next, rest)) : ∀ cells ∈ next.cells, cells.Finite := by
  unfold readMember at h
  split at h
  · obtain ⟨_, -, h⟩ := exists_of_bind_eq_ok h
    cases h
    exact hknown
  · obtain ⟨⟨answer, left⟩, hfield, h⟩ := exists_of_bind_eq_ok h
    cases h
    obtain ⟨cells, start, hcells, rfl⟩ := exists_of_expectField hfield
    rintro _ ⟨⟩
    exact Cells.finite_of_read hcells
  · obtain ⟨_, -, h⟩ := exists_of_bind_eq_ok h
    obtain ⟨_, -, h⟩ := exists_of_bind_eq_ok h
    cases h
    exact hknown

theorem finite_of_readItems (h : readItems depth input = .ok (known, rest)) :
    ∀ cells ∈ known.cells, cells.Finite := by
  obtain ⟨⟨name, left⟩, -, h⟩ := exists_of_bind_eq_ok h
  simp only at h
  split at h
  · cases h
    nofun
  obtain ⟨⟨answer, left⟩, hfield, h⟩ := exists_of_bind_eq_ok h
  simp only at h
  split at h
  · cases h
    nofun
  obtain ⟨_, -, h⟩ := exists_of_bind_eq_ok h
  cases h
  intro cells hcells
  obtain rfl : answer = some cells := hcells
  obtain ⟨start, hread⟩ := exists_of_nextField hfield
  exact Cells.finite_of_read hread

theorem finite_of_finish {column : Column Float} (hknown : ∀ cells ∈ known.cells, cells.Finite)
    (h : known.finish input = .ok (column, rest)) : column.cells.Finite := by
  unfold Fields.finish at h
  split at h
  · cases h
    exact hknown _ rfl
  · cases h

theorem finite_of_read {column : Column Float} (h : read depth input = .ok (column, rest)) :
    column.cells.Finite := by
  unfold read at h
  split at h
  · cases h
  · cases h
  · obtain ⟨⟨known, left⟩, hmembers, h⟩ := exists_of_bind_eq_ok h
    refine finite_of_finish (invariant_of_readMembers (p := fun known => ∀ cells ∈ known.cells, cells.Finite)
      (fun _ _ _ _ _ => finite_of_readMember) nofun hmembers) h
  · obtain ⟨⟨known, left⟩, hitems, h⟩ := exists_of_bind_eq_ok h
    exact finite_of_finish (finite_of_readItems hitems) h
  · cases h

end Column

/-! ### Frames -/

namespace Frame

/-- Columns without infinities and not-a-number, and metadata that is not null and can be read again where
so many containers may be opened. -/
structure Sound (depth : Nat) (columns : List (Column Float)) (metadata : Option Json) : Prop where
  finite : ∀ column ∈ columns, column.cells.Finite
  readable : ∀ value ∈ metadata, Readable depth value
  notNull : ∀ value ∈ metadata, value ≠ .null

theorem Sound.empty : Sound depth [] none := ⟨nofun, nofun, nofun⟩

/-- The fields that were read of a frame. -/
abbrev Fields.Sound (depth : Nat) (known : Fields) : Prop :=
  Frame.Sound depth (known.columns.getD []) (known.metadata.getD none)

variable {known next : Fields}

theorem Sound.with_metadata {columns : List (Column Float)} {old metadata : Option Json}
    (hknown : Sound depth columns old) (h : readMetadata depth input = .ok (metadata, rest)) :
    Sound depth columns metadata := by
  obtain ⟨⟨value, left⟩, hvalue, h⟩ := exists_of_bind_eq_ok h
  have hreadable := readable_of_readValue hvalue
  simp only at h
  split at h
  · cases h
    exact ⟨hknown.finite, nofun, nofun⟩
  · rename_i hnull
    cases h
    refine ⟨hknown.finite, ?_, ?_⟩
    · rintro _ ⟨⟩
      exact hreadable
    · rintro _ ⟨⟩
      exact hnull

theorem Sound.with_columns {columns old : List (Column Float)} {metadata : Option Json}
    (hknown : Sound depth old metadata) {d : Nat}
    (h : expectList Column.read d input = .ok (columns, rest)) : Sound depth columns metadata :=
  ⟨forall_of_expectList (fun _ _ _ _ _ => Column.finite_of_read) h, hknown.readable, hknown.notNull⟩

theorem sound_of_readMember {key : String} (hknown : known.Sound depth)
    (h : readMember depth known key input = .ok (next, rest)) : next.Sound depth := by
  unfold readMember at h
  split at h
  · obtain ⟨_, -, h⟩ := exists_of_bind_eq_ok h
    cases h
    exact hknown
  · obtain ⟨⟨answer, left⟩, hfield, h⟩ := exists_of_bind_eq_ok h
    cases h
    obtain ⟨columns, start, hcolumns, rfl⟩ := exists_of_expectField hfield
    exact hknown.with_columns hcolumns
  · obtain ⟨⟨answer, left⟩, hfield, h⟩ := exists_of_bind_eq_ok h
    cases h
    obtain ⟨metadata, start, hmetadata, rfl⟩ := exists_of_expectField hfield
    exact hknown.with_metadata hmetadata
  · obtain ⟨_, -, h⟩ := exists_of_bind_eq_ok h
    obtain ⟨_, -, h⟩ := exists_of_bind_eq_ok h
    cases h
    exact hknown

theorem sound_of_readItems (h : readItems depth input = .ok (known, rest)) : known.Sound depth := by
  obtain ⟨⟨name, left⟩, -, h⟩ := exists_of_bind_eq_ok h
  simp only at h
  split at h
  · cases h
    exact .empty
  obtain ⟨⟨columns, left⟩, hcolumns, h⟩ := exists_of_bind_eq_ok h
  simp only at h
  split at h
  · cases h
    exact .empty
  have hknown : Sound depth (columns.getD []) none := by
    cases columns with
    | none => exact .empty
    | some columns =>
      obtain ⟨start, hread⟩ := exists_of_nextField hcolumns
      exact Sound.empty.with_columns hread
  obtain ⟨⟨metadata, left⟩, hmetadata, h⟩ := exists_of_bind_eq_ok h
  simp only at h
  split at h
  · cases h
    exact hknown
  obtain ⟨_, -, h⟩ := exists_of_bind_eq_ok h
  cases h
  cases metadata with
  | none => exact hknown
  | some metadata =>
    obtain ⟨start, hread⟩ := exists_of_nextField hmetadata
    exact hknown.with_metadata hread

theorem sound_of_finish {frame : Frame Float} (hknown : known.Sound depth)
    (h : known.finish input = .ok (frame, rest)) : Sound depth frame.columns frame.metadata := by
  unfold Fields.finish at h
  split at h
  · cases h
    exact hknown
  · cases h

theorem sound_of_read {frame : Frame Float} (h : read (depth + 1) input = .ok (frame, rest)) :
    Sound depth frame.columns frame.metadata := by
  unfold read at h
  split at h
  · rename_i hdepth
    cases hdepth
  · rename_i hdepth
    cases hdepth
  · rename_i hdepth
    cases hdepth
    obtain ⟨⟨known, left⟩, hmembers, h⟩ := exists_of_bind_eq_ok h
    exact sound_of_finish (invariant_of_readMembers (fun _ _ _ _ _ => sound_of_readMember) .empty hmembers) h
  · rename_i hdepth
    cases hdepth
    obtain ⟨⟨known, left⟩, hitems, h⟩ := exists_of_bind_eq_ok h
    exact sound_of_finish (sound_of_readItems hitems) h
  · cases h

/-- A frame in a file opens 125 containers at most for its metadata. -/
theorem sound_of_readList {frames : List (Frame Float)} (h : readList input = .ok frames) :
    ∀ frame ∈ frames, Sound 125 frame.columns frame.metadata := by
  obtain ⟨⟨items, left⟩, hitems, h⟩ := exists_of_bind_eq_ok h
  simp only at h
  split at h
  · cases h
    refine forall_of_expectList (fun d hd input frame rest hread => ?_) hitems
    -- of the 127 containers the file takes one; the frame takes another before its metadata
    obtain rfl : d = 126 := (Nat.succ.inj hd).symm
    exact sound_of_read hread
  · cases h

end Frame

end

end Unnest
