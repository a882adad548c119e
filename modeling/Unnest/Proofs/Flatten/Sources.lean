import Unnest.Proofs.Flatten.Changes

/-!
# Flattening column by column

What flattening adds to a frame is told apart by the column it comes from: `Frame.addedAt` is what the
column at a position gives rise to, and `Frame.inUse` are the names in use before it. The output consists
of the columns of the frame and all of these (`columns_flatten`). A text column gives rise to what its
changes make of no columns (`addedAt_eq`), any other to nothing.
-/

namespace Unnest
variable {α : Type} [Quantity α]

/-- Rows without payloads lead to no changes. -/
theorem Payload.columnChanges_eq_nil {names : NameMap} {options : Options} {inUse : List String}
    {payloads : List (Option Payload)} (h : payloads.all Option.isNone) :
    columnChanges (α := α) names options inUse payloads = [] := by
  have hrep : ∀ payload ∈ payloads, payload = none := fun payload hp =>
    Option.isNone_iff_eq_none.1 (List.all_eq_true.1 h payload hp)
  have hocc : Schema.occurrences α payloads options.excludedKeys = [] :=
    List.flatMap_eq_nil_iff.2 fun payload hp => by rw [hrep payload hp]; rfl
  have hrows : ∀ schema usable row,
      rowsChanges (α := α) names options schema usable row payloads = [] := by
    intro schema usable
    clear hocc h
    induction payloads with
    | nil => exact fun _ => rfl
    | cons payload rest ih =>
      intro row
      rw [hrep payload List.mem_cons_self]
      exact ih (fun p hp => hrep p (List.mem_cons_of_mem _ hp)) (row + 1)
  rw [columnChanges, hrows, Schema.discover_eq_firsts, hocc]
  rfl

namespace Frame
variable (frame : Frame α) (names : NameMap) (options : Options)

/-- The columns that flattening has added when it comes to the column at a position. -/
def addedBefore (position : Nat) : List (Column α) :=
  ((frame.columns.take position).foldlM (frame.addSource names options) {}).value.columns

/-- The columns that flattening adds for the column at a position. -/
def addedAt (position : Nat) : List (Column α) :=
  (frame.addedBefore names options (position + 1)).drop (frame.addedBefore names options position).length

/-- The names in use when flattening comes to the column at a position. -/
def inUse (position : Nat) : List String :=
  frame.columnNames ++ (frame.addedBefore names options position).map Column.name

/-- The derived columns of the text column at a position before anything is derived. -/
def blank (position : Nat) (source : Column α) : Derived α where
  frame := frame.name
  source := source.name
  rows := frame.rowCount
  taken := frame.inUse names options position

/-- The derived columns of the text column at a position. -/
def derivedAt (position : Nat) (source : Column α) (cells : List String) : Derived α :=
  ((frame.blank names options position source).performAll
    (Payload.columnChanges names options (frame.inUse names options position)
      (cells.map Payload.ofText?))).value

theorem value_addSource (added : Additions α) (source : Column α) :
    (frame.addSource names options added source).value.columns = added.columns ++
      match source.strings? with
      | none => []
      | some cells =>
        let empty : Derived α :=
          { frame := frame.name, source := source.name, rows := frame.rowCount,
            taken := frame.columnNames ++ added.columns.map Column.name }
        (empty.performAll
          (Payload.columnChanges names options empty.taken (cells.map Payload.ofText?))).value.columns := by
  unfold addSource
  cases source.strings? with
  | none => simp
  | some cells =>
    simp only [Traced.value_bind, Payload.value_ofCells]
    split
    · rename_i h
      rw [Payload.columnChanges_eq_nil h]
      simp [Derived.performAll]
    · rw [Traced.value_bind, Derived.ofPayloads_eq_performAll rfl]
      rfl

theorem addedBefore_succ (position : Nat) :
    frame.addedBefore names options (position + 1) = frame.addedBefore names options position ++
      match frame.columns[position]? with
      | none => []
      | some source =>
        match source.strings? with
        | none => []
        | some cells => (frame.derivedAt names options position source cells).columns := by
  rw [addedBefore, List.take_add_one, List.foldlM_append, Traced.value_bind]
  cases frame.columns[position]? with
  | none => simp [addedBefore]
  | some source =>
    rw [Option.toList_some, List.foldlM_cons]
    exact value_addSource frame names options _ source

theorem addedBefore_succ_eq (position : Nat) : frame.addedBefore names options (position + 1) =
    frame.addedBefore names options position ++ frame.addedAt names options position := by
  rw [addedAt, addedBefore_succ, List.drop_left]

variable {frame names options}

/-- What a text column gives rise to. -/
theorem addedAt_eq {position : Nat} {source : Column α} {cells : List String}
    (hs : frame.columns[position]? = some source) (hc : source.strings? = some cells) :
    frame.addedAt names options position = (frame.derivedAt names options position source cells).columns := by
  rw [addedAt, addedBefore_succ, hs]
  simp only [hc, List.drop_left]

theorem addedAt_eq_nil {position : Nat} (h : frame.columns[position]?.bind Column.strings? = none) :
    frame.addedAt names options position = [] := by
  rw [addedAt, addedBefore_succ]
  cases hs : frame.columns[position]? with
  | none => simp
  | some source =>
    rw [hs, Option.bind_some] at h
    simp [h]

theorem inv_derivedAt (position : Nat) (source : Column α) (cells : List String) :
    (frame.derivedAt names options position source cells).Inv :=
  (Derived.Inv.of_columns_eq_nil rfl).performAll

theorem addedBefore_eq_flatMap (position : Nat) : frame.addedBefore names options position =
    (List.range position).flatMap (frame.addedAt names options) := by
  induction position with
  | zero => simp [addedBefore]
  | succ position ih => rw [addedBefore_succ_eq, ih, List.range_succ, List.flatMap_append]; simp

theorem columns_flatten : (frame.flatten names options).value.columns =
    frame.columns ++ frame.addedBefore names options frame.columns.length := by
  rw [addedBefore, List.take_length, flatten, Traced.value_bind]
  split <;> rfl

theorem addedAt_sublist {position : Nat} (h : position < frame.columns.length) :
    (frame.addedAt names options position).Sublist (frame.flatten names options).value.columns := by
  have hmem : frame.addedAt names options position ∈
      (List.range frame.columns.length).map (frame.addedAt names options) :=
    List.mem_map_of_mem (List.mem_range.2 h)
  rw [columns_flatten, addedBefore_eq_flatMap, List.flatMap]
  exact (List.sublist_flatten_of_mem hmem).trans (List.sublist_append_right _ _)

end Frame

end Unnest
