import Unnest.Proofs.Column
import Unnest.Proofs.Entries

/-!
# Cells written one after another

A write to a column is answered: the column takes the value or it does not. `Column.writeAll` performs writes in turn
and gives the answers. None of them changes the name, the type or the length, so what is taken is the same whatever was
written before (`answers_writeAll`). Of the writes to a cell only the last one that was taken is left, and without one
the cell is as it was (`get?_writeAll`).
-/

namespace Unnest.Column
variable {α : Type}

/-- Writes a cell; the answer says whether the column takes the value. What is not taken changes nothing. -/
def write (column : Column α) (row : Nat) (value : Scalar α) : Column α × Bool :=
  match column.set? row value with
  | some column => (column, true)
  | none => (column, false)

/-- Writes values to rows, one after another; there is an answer to each. -/
def writeAll (column : Column α) : List (Nat × Scalar α) → Column α × List Bool
  | [] => (column, [])
  | (row, value) :: writes =>
    let (column, answer) := column.write row value
    let (column, answers) := column.writeAll writes
    (column, answer :: answers)

/-- The writes that are answered with yes when all of them are performed in turn. -/
def taken (column : Column α) (writes : List (Nat × Scalar α)) : List (Nat × Scalar α) :=
  ((writes.zip (column.writeAll writes).2).filter Prod.snd).map Prod.fst

theorem write_eq (column : Column α) (row : Nat) (value : Scalar α) :
    column.write row value = (column.put row value, decide (value.type = column.type ∧ row < column.length)) := by
  unfold write
  by_cases hfits : value.type = column.type ∧ row < column.length
  · cases h : column.set? row value with
    | none => exact absurd hfits (set?_eq_none_iff.1 h)
    | some column' => rw [put, h, Option.getD_some, decide_eq_true hfits]
  · rw [set?_eq_none_iff.2 hfits, put_eq_self hfits, decide_eq_false hfits]

variable (column : Column α) (row : Nat) (value : Scalar α) (writes : List (Nat × Scalar α))

theorem writeAll_cons : column.writeAll ((row, value) :: writes) =
    (((column.put row value).writeAll writes).1,
      decide (value.type = column.type ∧ row < column.length) :: ((column.put row value).writeAll writes).2) := by
  rw [writeAll, write_eq]

theorem taken_cons : column.taken ((row, value) :: writes) =
    (if value.type = column.type ∧ row < column.length then [(row, value)] else []) ++
      (column.put row value).taken writes := by
  rw [taken, writeAll_cons]
  split <;> simp [taken, *]

/-- What no single write changes, no number of them does. -/
theorem kept_writeAll {β : Type} {view : Column α → β}
    (h : ∀ column row value, view (column.put row value) = view column) :
    view (column.writeAll writes).1 = view column := by
  induction writes generalizing column with
  | nil => rfl
  | cons write writes ih => rw [writeAll_cons, ih, h]

@[simp] theorem name_writeAll : (column.writeAll writes).1.name = column.name := kept_writeAll column writes name_put

@[simp] theorem type_writeAll : (column.writeAll writes).1.type = column.type := kept_writeAll column writes type_put

@[simp] theorem length_writeAll : (column.writeAll writes).1.length = column.length :=
  kept_writeAll column writes length_put

/-- A column takes the values of its type for the rows that it has. -/
theorem answers_writeAll : (column.writeAll writes).2 =
    writes.map fun (row, value) => decide (value.type = column.type ∧ row < column.length) := by
  induction writes generalizing column with
  | nil => rfl
  | cons write writes ih =>
    -- the column that is left for the other writes has the same type and length
    rw [writeAll_cons, ih, type_put, length_put]
    rfl

/-- A cell holds what was last taken for its row. -/
theorem get?_writeAll (i : Nat) :
    (column.writeAll writes).1.get? i = (Entries.last? (column.taken writes) i).or (column.get? i) := by
  induction writes generalizing column with
  | nil => rfl
  | cons write writes ih =>
    obtain ⟨row, value⟩ := write
    have hput : (column.put row value).get? i = (Entries.last?
        (if value.type = column.type ∧ row < column.length then [(row, value)] else []) i).or (column.get? i) := by
      rw [get?_put]
      by_cases hfits : value.type = column.type ∧ row < column.length
      · rw [if_pos hfits, Entries.last?_singleton]
        by_cases hi : i = row
        · rw [if_pos ⟨hi, hfits⟩, if_pos hi.symm, Option.some_or]
        · rw [if_neg fun h => hi h.1, if_neg (Ne.symm hi), Option.none_or]
      · rw [if_neg fun h => hfits h.2, if_neg hfits]
        rfl
    rw [writeAll_cons, ih, hput, taken_cons, Entries.last?_append, Option.or_assoc]

/-- Whatever is written, name, type and length stay all along; a write is taken exactly if the value has the type and
the row is there; and in the end each cell holds the last value taken for its row, or what it held before. -/
theorem writeAll_keeps_last :
    (∀ n, (column.writeAll (writes.take n)).1.name = column.name ∧
      (column.writeAll (writes.take n)).1.type = column.type ∧
      (column.writeAll (writes.take n)).1.length = column.length) ∧
    (column.writeAll writes).2 =
      (writes.map fun (row, value) => decide (value.type = column.type ∧ row < column.length)) ∧
    ∀ i, (column.writeAll writes).1.get? i = (Entries.last? (column.taken writes) i).or (column.get? i) :=
  ⟨fun _ => ⟨name_writeAll column _, type_writeAll column _, length_writeAll column _⟩,
    answers_writeAll column writes, get?_writeAll column writes⟩

/-- A text and a row out of range are not taken; of two numbers for one row the second is left. -/
example : writeAll (⟨"x", .float64 [0, 0]⟩ : Column Nat)
    [(0, .string "no"), (1, .float64 3), (2, .float64 1), (1, .float64 5)] =
      (⟨"x", .float64 [0, 5]⟩, [false, true, false, true]) := by decide

end Unnest.Column
