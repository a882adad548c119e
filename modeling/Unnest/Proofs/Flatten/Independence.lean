import Unnest.Proofs.Flatten.Cells

/-!
# Rows and other rows

What flattening writes in one row depends on the other rows in one respect: they decide which contribution
columns can be had, for a scalar key that first occurs with another type takes the name of a contribution
column. `Frame.rows_flatten` compares two frames that differ in one cell of their only text column: added
columns of one name and type agree in every other row in which the same contributions have a column. Where
that is not so, the shares of the others change with it (`Frame.rows_independent_fails`).
-/

namespace Unnest
variable {α : Type} [Quantity α] {names : NameMap} {options : Options}

namespace Payload
variable {payload : Payload} {usable usable' : String → Bool} {name : String} {type : ScalarType}

/-- What a payload supplies depends on the usable names through its own contribution columns only. -/
theorem cell_congr (h : ∀ diagnostic ∈ payload.diagnostics (α := α) options.segmentRule,
      usable (diagnostic.contributionColumn names options) =
        usable' (diagnostic.contributionColumn names options)) :
    payload.cell (α := α) names options usable name type = payload.cell names options usable' name type := by
  have haccepted : Diagnostic.accepted names options usable
        (payload.diagnostics (α := α) options.segmentRule) =
      Diagnostic.accepted names options usable' (payload.diagnostics options.segmentRule) :=
    List.filter_congr h
  have hshare : payload.share? (α := α) names options usable name =
      payload.share? names options usable' name := by
    rw [share?, share?, shares, shares, haccepted]
  have hscore : payload.score? (α := α) names options usable name =
      payload.score? names options usable' name := by
    rw [score?, score?, haccepted]
  unfold cell
  rw [hshare, hscore]

/-- Texts and truth values come from scalars alone. -/
theorem cell_of_ne_float64 (ht : type ≠ .float64)
    (hshare : payload.share? (α := α) names options usable name = none) :
    payload.cell (α := α) names options usable name type =
      ((payload.scalar? options name).filter fun value => value.type = type).getD (Scalar.zero type) := by
  unfold cell
  rw [hshare]
  cases type with
  | float64 => exact absurd rfl ht
  | string => rfl
  | bool => rfl

end Payload

namespace Frame
variable {frame : Frame α} {position row : Nat} {source column : Column α} {cells : List String}

def added (frame : Frame α) (names : NameMap) (options : Options) : List (Column α) :=
  (frame.flatten names options).value.columns.drop frame.columns.length

/-- The frame with another text in one cell. -/
def replaceText (frame : Frame α) (position row : Nat) (raw : String) : Frame α :=
  { frame with columns := frame.columns.modify position fun source => source.put row (.string raw) }

/-- The column at a position is the only text column. -/
def OnlyText (frame : Frame α) (position : Nat) : Prop :=
  ∀ i, (frame.columns[i]?.bind Column.strings?).isSome ↔ i = position

omit [Quantity α] in
theorem flatMap_range_eq {β : Type} {f : Nat → List β} {n : Nat} (hposition : position < n)
    (h : ∀ i ≠ position, f i = []) : (List.range n).flatMap f = f position := by
  induction n with
  | zero => exact absurd hposition (Nat.not_lt_zero _)
  | succ n ih =>
    rw [List.range_succ, List.flatMap_append, List.flatMap_singleton]
    by_cases hn : n = position
    · subst hn
      have hbefore : (List.range n).flatMap f = [] :=
        List.flatMap_eq_nil_iff.2 fun i hi => h i (Nat.ne_of_lt (List.mem_range.1 hi))
      rw [hbefore, List.nil_append]
    · rw [h n hn, List.append_nil]
      exact ih (by omega)

namespace OnlyText

theorem addedAt_eq_nil (h : frame.OnlyText position) {i : Nat} (hi : i ≠ position) :
    frame.addedAt names options i = [] :=
  Frame.addedAt_eq_nil (Option.not_isSome_iff_eq_none.1 fun hsome => hi ((h i).1 hsome))

theorem addedBefore_eq_nil (h : frame.OnlyText position) :
    frame.addedBefore names options position = [] := by
  rw [addedBefore_eq_flatMap]
  exact List.flatMap_eq_nil_iff.2 fun i hi => h.addedAt_eq_nil (Nat.ne_of_lt (List.mem_range.1 hi))

theorem inUse_eq (h : frame.OnlyText position) : frame.inUse names options position = frame.columnNames := by
  rw [inUse, h.addedBefore_eq_nil, List.map_nil, List.append_nil]

omit [Quantity α] in
theorem lt_length (h : frame.OnlyText position) : position < frame.columns.length := by
  by_contra hge
  have hsome := (h position).2 rfl
  rw [List.getElem?_eq_none (Nat.le_of_not_lt hge)] at hsome
  cases hsome

/-- What flattening adds comes from the only text column. -/
theorem added_eq (h : frame.OnlyText position) :
    frame.added names options = frame.addedAt names options position := by
  rw [added, columns_flatten, List.drop_left, addedBefore_eq_flatMap]
  exact flatMap_range_eq h.lt_length fun i hi => h.addedAt_eq_nil hi

end OnlyText

section
variable (hs : frame.columns[position]? = some source) (hc : source.strings? = some cells)
include hs hc

theorem type_of_share? (hcol : column ∈ frame.addedAt names options position) {payload : Payload}
    (hshare : (payload.share? (α := α) names options (frame.isUsable names options position cells)
      column.name).isSome) : column.type = .float64 := by
  obtain ⟨diagnostic, -, hu, -⟩ := Payload.exists_of_share? hshare
  exact type_of_mem_addedAt hs hc hcol hu

end

section
omit [Quantity α]

theorem map_replaceText {β : Type} (f : Column α → β) (raw : String)
    (hf : ∀ column : Column α, f (column.put row (.string raw)) = f column) :
    (frame.replaceText position row raw).columns.map f = frame.columns.map f := by
  refine List.ext_getElem? fun i => ?_
  rw [replaceText, List.getElem?_map, List.getElem?_map, List.getElem?_modify]
  cases frame.columns[i]? with
  | none => rfl
  | some column =>
    by_cases hi : position = i
    · simp [hi, hf]
    · simp [hi]

theorem rowCount_replaceText (raw : String) :
    (frame.replaceText position row raw).rowCount = frame.rowCount := by
  have hcount : ∀ frame : Frame α, frame.rowCount = (frame.columns.map Column.length).head?.getD 0 := by
    intro frame
    rw [rowCount]
    cases frame.columns <;> rfl
  rw [hcount, hcount, map_replaceText _ raw fun column => Column.length_put column row _]

theorem getElem?_replaceText (hs : frame.columns[position]? = some source) (raw : String) :
    (frame.replaceText position row raw).columns[position]? = some (source.put row (.string raw)) := by
  rw [replaceText, List.getElem?_modify_eq, hs]
  rfl

theorem OnlyText.replaceText (h : frame.OnlyText position) (raw : String) :
    (frame.replaceText position row raw).OnlyText position := by
  have htext : ∀ (frame : Frame α) (i : Nat), (frame.columns[i]?.bind Column.strings?).isSome =
      (frame.columns.map fun column => column.strings?.isSome)[i]?.getD false := by
    intro frame i
    rw [List.getElem?_map]
    cases frame.columns[i]? <;> rfl
  intro i
  rw [← h i, htext, htext, map_replaceText]
  intro column
  rw [Column.strings?_put, Option.isSome_map]

end

/-- Of two frames that differ in one cell of their only text column, the added columns of one name and type
agree in all other rows: columns of texts and truth values always, numeric ones where the contributions of the
row have a column in both or in neither. -/
theorem rows_flatten (frame : Frame α) (names : NameMap) (options : Options) {position : Nat}
    {source : Column α} {cells : List String} (hs : frame.columns[position]? = some source)
    (hc : source.strings? = some cells) (honly : frame.OnlyText position) (row : Nat) (raw : String) :
    ∀ column ∈ frame.added names options,
      ∀ column' ∈ (frame.replaceText position row raw).added names options,
        column'.name = column.name → column'.type = column.type → ∀ i ≠ row,
          (column.type = .float64 → ∀ payload, cells[i]?.bind Payload.ofText? = some payload →
            ∀ diagnostic ∈ payload.diagnostics (α := α) options.segmentRule,
              (frame.replaceText position row raw).isUsable names options position (cells.set row raw)
                  (diagnostic.contributionColumn names options) =
                frame.isUsable names options position cells
                  (diagnostic.contributionColumn names options)) →
          column'.get? i = column.get? i := by
  intro column hcol column' hcol' hname htype i hi hagree
  let frame' := frame.replaceText position row raw
  have hs' : frame'.columns[position]? = some (source.put row (.string raw)) := getElem?_replaceText hs raw
  have hc' : (source.put row (.string raw)).strings? = some (cells.set row raw) := by
    rw [Column.strings?_put, hc, Option.map_some]
  rw [honly.added_eq] at hcol
  rw [(honly.replaceText raw).added_eq] at hcol'
  by_cases hr : i < frame.rowCount
  · have hr' : i < frame'.rowCount := (rowCount_replaceText raw).symm ▸ hr
    have hcell : (cells.set row raw)[i]? = cells[i]? := List.getElem?_set_ne (Ne.symm hi)
    rw [get?_addedAt hs hc hcol hr, get?_addedAt hs' hc' hcol' hr', hcell, hname, htype]
    cases hp : cells[i]?.bind Payload.ofText? with
    | none => rfl
    | some payload =>
      by_cases hf : column.type = .float64
      · exact congrArg some (Payload.cell_congr (hagree hf payload hp))
      · -- a share would make the column numeric, so none is written in either frame
        have hshare : payload.share? (α := α) names options (frame.isUsable names options position cells)
            column.name = none :=
          Option.not_isSome_iff_eq_none.1 fun h => hf (type_of_share? hs hc hcol h)
        have hshare' : payload.share? (α := α) names options
            (frame'.isUsable names options position (cells.set row raw)) column.name = none := by
          rw [← hname]
          exact Option.not_isSome_iff_eq_none.1 fun h => hf (htype ▸ type_of_share? hs' hc' hcol' h)
        exact congrArg some ((Payload.cell_of_ne_float64 hf hshare').trans
          (Payload.cell_of_ne_float64 hf hshare).symm)
  · have hr' : frame'.rowCount ≤ i := (rowCount_replaceText raw).symm ▸ Nat.le_of_not_lt hr
    rw [get?_addedAt_eq_none hs hc hcol (Nat.le_of_not_lt hr), get?_addedAt_eq_none hs' hc' hcol' hr']

theorem onlyText_sample : (sample Float).OnlyText 0 := by
  intro i
  cases i with
  | zero => exact ⟨fun _ => rfl, fun _ => rfl⟩
  | succ i => exact ⟨nofun, nofun⟩

/-- A cell with one of the two diagnostics of the sample. -/
def otherCell : String :=
  "\x7b\"diagnostics\":[\x7b\"name\":\"r\\\\a\",\"value\":1\x7d]\x7d"

theorem rows_flatten_sample :
    let column : Column Float := ⟨"contrib_a", .float64 [75.0, 0.0]⟩
    let column' : Column Float := ⟨"contrib_a", .float64 [75.0, 100.0]⟩
    column ∈ (sample Float).added {} {} ∧ column' ∈ ((sample Float).replaceText 0 1 otherCell).added {} {} ∧
      column'.get? 0 = column.get? 0 := by
  intro column column'
  have hcol : column ∈ (sample Float).added {} {} := by decide +kernel
  have hcol' : column' ∈ ((sample Float).replaceText 0 1 otherCell).added {} {} := by decide +kernel
  refine ⟨hcol, hcol', rows_flatten (sample Float) {} {} rfl rfl onlyText_sample 1 otherCell column hcol column' hcol'
    rfl rfl 0 (by decide) fun _ payload hp diagnostic hd => ?_⟩
  obtain rfl := Option.some_inj.1 (hp.symm.trans ofText?_sampleCells)
  revert hd
  revert diagnostic
  decide +kernel

/-- A cell with a text under the name of a contribution column of the sample. -/
def conflictingCell : String := "\x7b\"contrib_a\":\"x\"\x7d"

/-- A row can change the shares of another row: a text in place of a contribution column takes its
contribution out of the total. -/
theorem rows_independent_fails :
    (sample Float).validate = .ok () ∧ ((sample Float).replaceText 0 1 conflictingCell).validate = .ok () ∧
      (sample Float).OnlyText 0 ∧ ((sample Float).replaceText 0 1 conflictingCell).OnlyText 0 ∧
      ∃ column ∈ (sample Float).added {} {},
        ∃ column' ∈ ((sample Float).replaceText 0 1 conflictingCell).added {} {},
          column'.name = column.name ∧ column'.type = column.type ∧ column'.get? 0 ≠ column.get? 0 := by
  let column : Column Float := ⟨"contrib_b", .float64 [25.0, 0.0]⟩
  let column' : Column Float := ⟨"contrib_b", .float64 [100.0, 0.0]⟩
  have hcol : column ∈ (sample Float).added {} {} := by decide +kernel
  have hcol' : column' ∈ ((sample Float).replaceText 0 1 conflictingCell).added {} {} := by decide +kernel
  exact ⟨rfl, rfl, onlyText_sample, onlyText_sample.replaceText conflictingCell, column, hcol, column', hcol',
    by decide, by decide, by decide⟩

end Frame

end Unnest
