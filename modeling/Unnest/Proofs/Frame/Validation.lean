import Mathlib.Order.Bounds.Basic
import Unnest.Proofs.Frame.RoundTrip

/-!
# The column that a refusal names

A frame is accepted exactly if its columns are `Regular`. If it is not, the columns up to some place are
regular and those up to the next one are not; the error is about the column at that place
(`validate_eq_error`): its length if that differs from the length of the first column, and otherwise its name,
which then stands before it. The frames of a file are checked in order, so that the error of a file is that of
the first frame with one (`parseFile_eq_error`).
-/

namespace Unnest.Frame
variable {α : Type} {name : String} {columns : List (Column α)} {error : FrameError}

/-- Columns of a table: equally long, with different names. -/
structure Regular (columns : List (Column α)) : Prop where
  even : ∀ column ∈ columns, ∀ other ∈ columns, column.length = other.length
  distinct : (columns.map Column.name).Nodup

theorem Regular.take (h : Regular columns) (n : Nat) : Regular (columns.take n) where
  even column hc other ho := h.even column (List.mem_of_mem_take hc) other (List.mem_of_mem_take ho)
  distinct := h.distinct.sublist ((List.take_sublist n columns).map Column.name)

/-- The error about the first column with which the columns up to it are not regular. -/
def FirstOffence (name : String) (columns : List (Column α)) (error : FrameError) : Prop :=
  ∃ i first column, columns[0]? = some first ∧ columns[i]? = some column ∧
    IsLeast {n | ¬ Regular (columns.take (n + 1))} i ∧
      (column.length ≠ first.length ∧
          error = .rowCountMismatch name column.name first.length column.length ∨
        column.length = first.length ∧ column.name ∈ (columns.take i).map Column.name ∧
          error = .duplicateColumn name column.name)

theorem FirstOffence.unique {other : FrameError} (h : FirstOffence name columns error)
    (h' : FirstOffence name columns other) : error = other := by
  obtain ⟨i, first, column, hfirst, hcolumn, hleast, hoffence⟩ := h
  obtain ⟨j, first', column', hfirst', hcolumn', hleast', hoffence'⟩ := h'
  obtain rfl := hleast.unique hleast'
  obtain rfl := Option.some_inj.1 (hfirst.symm.trans hfirst')
  obtain rfl := Option.some_inj.1 (hcolumn.symm.trans hcolumn')
  rcases hoffence with ⟨hne, rfl⟩ | ⟨heq, -, rfl⟩ <;> rcases hoffence' with ⟨hne', rfl⟩ | ⟨heq', -, rfl⟩
  · rfl
  · exact absurd heq' hne
  · exact absurd heq hne'
  · rfl

theorem FirstOffence.not_regular (h : FirstOffence name columns error) : ¬ Regular columns := by
  obtain ⟨i, -, -, -, -, hleast, -⟩ := h
  exact fun hr => hleast.1 (hr.take (i + 1))

/-! ### Checking columns in order -/

/-- What is wrong with a column after columns with certain names. -/
def Offends (name : String) (expected : Nat) (seen : List String) (column : Column α) (error : FrameError) : Prop :=
  column.length ≠ expected ∧ error = .rowCountMismatch name column.name expected column.length ∨
    column.length = expected ∧ column.name ∈ seen ∧ error = .duplicateColumn name column.name

variable (name) in
theorem validateColumns_cons (expected : Nat) (seen : List String) (column : Column α) (rest : List (Column α)) :
    (∃ error, Offends name expected seen column error ∧
        validateColumns name expected seen (column :: rest) = .error error) ∨
      (∀ error, ¬ Offends name expected seen column error) ∧
        validateColumns name expected seen (column :: rest) =
          validateColumns name expected (column.name :: seen) rest := by
  rw [validateColumns]
  split
  · rename_i hl
    exact .inl ⟨_, .inl ⟨hl, rfl⟩, rfl⟩
  · rename_i hl
    split
    · rename_i hs
      exact .inl ⟨_, .inr ⟨not_not.1 hl, hs, rfl⟩, rfl⟩
    · rename_i hs
      refine .inr ⟨?_, rfl⟩
      rintro error (⟨hl', -⟩ | ⟨-, hs', -⟩)
      · exact hl hl'
      · exact hs hs'

/-- A check fails at the first column that offends after the columns before it. -/
theorem exists_offends {expected : Nat} {seen : List String}
    (h : validateColumns name expected seen columns = .error error) :
    ∃ before column after, columns = before ++ column :: after ∧
      validateColumns name expected seen before = .ok () ∧
        Offends name expected (before.map Column.name ++ seen) column error := by
  induction columns generalizing seen with
  | nil => cases h
  | cons first rest ih =>
    rcases validateColumns_cons name expected seen first rest with ⟨e, ho, he⟩ | ⟨hno, he⟩
    · obtain rfl := Except.error.inj (he.symm.trans h)
      exact ⟨[], first, rest, rfl, rfl, ho⟩
    · obtain ⟨before, column, after, rfl, hok, ho⟩ := ih (he.symm.trans h)
      refine ⟨first :: before, column, after, rfl, ?_, ?_⟩
      · -- what follows does not matter for the first column
        rcases validateColumns_cons name expected seen first before with ⟨e, ho', -⟩ | ⟨-, he'⟩
        · exact absurd ho' (hno e)
        · rw [he', hok]
      · simpa [Offends, or_left_comm] using ho

theorem regular_of_validateColumns {expected : Nat} {seen : List String}
    (h : validateColumns name expected seen columns = .ok ()) : Regular columns := by
  obtain ⟨hlength, hnodup, -⟩ := validateColumns_eq_ok.1 h
  exact ⟨fun column hc other ho => (hlength column hc).trans (hlength other ho).symm, hnodup⟩

variable {frame : Frame α}

theorem validate_eq_ok_iff_regular : frame.validate = .ok () ↔ Regular frame.columns := by
  refine ⟨regular_of_validateColumns, fun h => validate_eq_ok.2 ⟨fun column hc => ?_, h.distinct⟩⟩
  cases hcolumns : frame.columns with
  | nil =>
    rw [hcolumns] at hc
    cases hc
  | cons first rest =>
    rw [rowCount, hcolumns]
    exact h.even column hc first (hcolumns ▸ List.mem_cons_self)

/-- The length of the first column is the one that is expected, so a column that offends breaks the table. -/
theorem Offends.not_regular {before : List (Column α)} {first column : Column α}
    (hfirst : (before ++ [column]).head? = some first)
    (h : Offends name first.length (before.map Column.name) column error) : ¬ Regular (before ++ [column]) := by
  intro hr
  rcases h with ⟨hne, -⟩ | ⟨-, hseen, -⟩
  · exact hne (hr.even column (List.mem_append_right _ (List.mem_singleton_self _)) first
      (List.mem_of_mem_head? hfirst))
  · have hnodup := hr.distinct
    rw [List.map_append, List.nodup_append] at hnodup
    exact hnodup.2.2 _ hseen _ (List.mem_singleton_self _) rfl

theorem take_succ_length (before : List (Column α)) (column : Column α) (after : List (Column α)) :
    (before ++ column :: after).take (before.length + 1) = before ++ [column] := by
  rw [List.take_length_add_append, List.take_succ_cons, List.take_zero]

theorem isLeast_length {before : List (Column α)} {column : Column α} (after : List (Column α))
    (hbefore : Regular before) (hbroken : ¬ Regular (before ++ [column])) :
    IsLeast {n | ¬ Regular ((before ++ column :: after).take (n + 1))} before.length := by
  refine ⟨?_, fun n hn => Nat.le_of_not_lt fun hlt => hn ?_⟩
  · show ¬ Regular ((before ++ column :: after).take (before.length + 1))
    rwa [take_succ_length]
  · rw [List.take_append_of_le_length hlt]
    exact hbefore.take (n + 1)

theorem firstOffence_of_validate (h : frame.validate = .error error) :
    FirstOffence frame.name frame.columns error := by
  obtain ⟨before, column, after, hcolumns, hok, ho⟩ := exists_offends h
  obtain ⟨first, hfirst⟩ : ∃ first, (before ++ [column]).head? = some first := by cases before <;> exact ⟨_, rfl⟩
  have hhead : frame.columns.head? = some first := by
    rw [hcolumns, List.append_cons, List.head?_append, hfirst, Option.some_or]
  have hcount : frame.rowCount = first.length := by rw [rowCount, hhead, Option.elim_some]
  rw [List.append_nil, hcount] at ho
  have hleast := isLeast_length after (regular_of_validateColumns hok) (ho.not_regular hfirst)
  rw [← hcolumns] at hleast
  refine ⟨before.length, first, column, ?_, ?_, hleast, ?_⟩
  · rw [← hhead, List.head?_eq_getElem?]
  · rw [hcolumns, List.getElem?_append_right (Nat.le_refl _), Nat.sub_self, List.getElem?_cons_zero]
  · rw [hcolumns, List.take_left]
    exact ho

theorem validate_eq_error : frame.validate = .error error ↔ FirstOffence frame.name frame.columns error := by
  refine ⟨firstOffence_of_validate, fun h => ?_⟩
  cases hv : frame.validate with
  | ok _ => exact absurd (validate_eq_ok_iff_regular.1 hv) h.not_regular
  | error found => rw [(firstOffence_of_validate hv).unique h]

theorem ofColumns?_eq_ok : ofColumns? name columns = .ok frame ↔ Regular columns ∧ frame = { name, columns } := by
  rw [ofColumns?, ← @validate_eq_ok_iff_regular α { name, columns }]
  cases validate { name, columns } with
  | ok _ => exact ⟨fun h => ⟨rfl, (Except.ok.inj h).symm⟩, fun h => congrArg Except.ok h.2.symm⟩
  | error e => exact ⟨nofun, nofun⟩

theorem ofColumns?_eq_error : ofColumns? name columns = .error error ↔ FirstOffence name columns error := by
  rw [ofColumns?, ← @validate_eq_error α error { name, columns }]
  cases validate { name, columns } with
  | ok _ => exact ⟨nofun, nofun⟩
  | error e => simp [Except.map]

/-! ### Files of frames -/

theorem validateAll_eq_error {frames : List (Frame α)} : validateAll frames = .error error ↔
    ∃ before frame after, frames = before ++ frame :: after ∧
      (∀ other ∈ before, other.validate = .ok ()) ∧ frame.validate = .error error := by
  induction frames with
  | nil => simp [validateAll]
  | cons first rest ih =>
    rw [validateAll]
    cases hv : first.validate with
    | error found =>
      constructor
      · intro h
        exact ⟨[], first, rest, rfl, List.forall_mem_nil _, hv.trans h⟩
      · rintro ⟨before, frame, after, hframes, hok, he⟩
        cases before with
        | nil =>
          obtain ⟨rfl, -⟩ := List.cons.inj hframes
          exact hv.symm.trans he
        | cons other before =>
          obtain ⟨rfl, -⟩ := List.cons.inj hframes
          cases hv.symm.trans (hok _ List.mem_cons_self)
    | ok _ =>
      show validateAll rest = .error error ↔ _
      rw [ih]
      constructor
      · rintro ⟨before, frame, after, rfl, hok, he⟩
        exact ⟨first :: before, frame, after, rfl, List.forall_mem_cons.2 ⟨hv, hok⟩, he⟩
      · rintro ⟨before, frame, after, hframes, hok, he⟩
        cases before with
        | nil =>
          obtain ⟨rfl, -⟩ := List.cons.inj hframes
          cases hv.symm.trans he
        | cons other before =>
          obtain ⟨rfl, rfl⟩ := List.cons.inj hframes
          exact ⟨before, frame, after, rfl, fun f hf => hok f (List.mem_cons_of_mem _ hf), he⟩

theorem parseFile_eq_error {content : ByteArray} : parseFile content = .error (.frame error) ↔
    ∃ before frame after, readList (Text.Symbol.ofBytes content) = .ok (before ++ frame :: after) ∧
      (∀ other ∈ before, other.validate = .ok ()) ∧ frame.validate = .error error := by
  rw [parseFile]
  cases readList (Text.Symbol.ofBytes content) with
  | error failure => simp
  | ok frames =>
    have herror : validateAll frames = .error error ↔ _ := validateAll_eq_error
    cases hv : validateAll frames with
    | ok _ => simpa [hv] using herror
    | error found => simpa [hv] using herror

/-- A frame, a list of columns and a file of frames are accepted exactly if all columns are regular, and
otherwise the first offence is reported, in a file that of the first frame with one. -/
theorem validate_reports_first :
    (∀ frame : Frame α, (frame.validate = .ok () ↔ Regular frame.columns) ∧
        ∀ error, frame.validate = .error error ↔ FirstOffence frame.name frame.columns error) ∧
      (∀ (name : String) (columns : List (Column α)),
        (∀ frame, ofColumns? name columns = .ok frame ↔ Regular columns ∧ frame = { name, columns }) ∧
          ∀ error, ofColumns? name columns = .error error ↔ FirstOffence name columns error) ∧
      ∀ content : ByteArray,
        (∀ frames, parseFile content = .ok frames ↔
          readList (Text.Symbol.ofBytes content) = .ok frames ∧ ∀ frame ∈ frames, Regular frame.columns) ∧
          ∀ error, parseFile content = .error (.frame error) ↔
            ∃ before frame after, readList (Text.Symbol.ofBytes content) = .ok (before ++ frame :: after) ∧
              (∀ other ∈ before, Regular other.columns) ∧ FirstOffence frame.name frame.columns error := by
  refine ⟨fun frame => ⟨validate_eq_ok_iff_regular, fun error => validate_eq_error⟩,
    fun name columns => ⟨fun frame => ofColumns?_eq_ok, fun error => ofColumns?_eq_error⟩, fun content => ⟨?_, ?_⟩⟩
  · intro frames
    rw [parseFile_eq_ok, validateAll_eq_ok]
    simp only [validate_eq_ok_iff_regular]
  · intro error
    rw [parseFile_eq_error]
    simp only [validate_eq_ok_iff_regular, validate_eq_error]

end Unnest.Frame
