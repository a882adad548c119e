import Unnest.Column

/-!
# Writing cells

What `Column.set?` does to a column: it accepts exactly the values of the column's type for the rows
the column has, and then changes the cell of that row and nothing else. `Column.put` is the same write
with a refused value left out. Both are read through `Column.get?`.
-/

namespace Unnest
variable {α : Type}

/-- The zero value of a type. -/
def Scalar.zero [Quantity α] : ScalarType → Scalar α
  | .float64 => .float64 Quantity.zero
  | .string => .string ""
  | .bool => .bool false

namespace Cells

theorem replace?_eq_some {β : Type} {xs ys : List β} {row : Nat} {x : β} :
    replace? xs row x = some ys ↔ row < xs.length ∧ ys = xs.set row x := by
  unfold replace?
  split <;> simp [*, eq_comm]

/-- An accepted write: the value fits, and only its cell changes. -/
structure Written (cells : Cells α) (row : Nat) (value : Scalar α) (cells' : Cells α) : Prop where
  fits : value.type = cells.type
  inRange : row < cells.length
  type : cells'.type = cells.type
  length : cells'.length = cells.length
  get? : ∀ i, cells'.get? i = if i = row then some value else cells.get? i

theorem get?_set_map {β : Type} (f : β → Scalar α) (xs : List β) {row : Nat} (x : β)
    (h : row < xs.length) (i : Nat) :
    (xs.set row x)[i]?.map f = if i = row then some (f x) else xs[i]?.map f := by
  by_cases hi : i = row
  · subst hi
    simp [h]
  · simp [hi, Ne.symm hi]

theorem written_of_set? {cells cells' : Cells α} {row : Nat} {value : Scalar α}
    (h : cells.set? row value = some cells') : Written cells row value cells' := by
  cases cells <;> cases value <;> simp only [set?, Option.map_eq_some_iff, reduceCtorEq] at h
  all_goals
    obtain ⟨ys, hys, rfl⟩ := h
    obtain ⟨hr, rfl⟩ := replace?_eq_some.1 hys
    exact ⟨rfl, hr, rfl, by simp [length], get?_set_map _ _ _ hr⟩

theorem set?_eq_none_iff {cells : Cells α} {row : Nat} {value : Scalar α} :
    cells.set? row value = none ↔ ¬ (value.type = cells.type ∧ row < cells.length) := by
  cases cells <;> cases value <;> simp [set?, replace?, Scalar.type, type, length]

@[simp] theorem type_zeroed [Quantity α] (type : ScalarType) (rows : Nat) :
    (zeroed type rows : Cells α).type = type := by
  cases type <;> rfl

@[simp] theorem length_zeroed [Quantity α] (type : ScalarType) (rows : Nat) :
    (zeroed type rows : Cells α).length = rows := by
  cases type <;> simp [zeroed, length]

theorem get?_zeroed [Quantity α] (type : ScalarType) {rows row : Nat} (h : row < rows) :
    (zeroed type rows : Cells α).get? row = some (Scalar.zero type) := by
  cases type <;> simp [zeroed, get?, Scalar.zero, h]

end Cells

namespace Column

/-- Writes a value that the column accepts for the row, and leaves out any other. -/
def put (column : Column α) (row : Nat) (value : Scalar α) : Column α :=
  (column.set? row value).getD column

theorem set?_eq_none_iff {column : Column α} {row : Nat} {value : Scalar α} :
    column.set? row value = none ↔ ¬ (value.type = column.type ∧ row < column.length) := by
  rw [set?, Option.map_eq_none_iff, Cells.set?_eq_none_iff]
  rfl

theorem put_eq_self {column : Column α} {row : Nat} {value : Scalar α}
    (h : ¬ (value.type = column.type ∧ row < column.length)) : column.put row value = column := by
  rw [put, set?_eq_none_iff.2 h, Option.getD_none]

/-- A write is either left out or accepted. -/
theorem put_cases (column : Column α) (row : Nat) (value : Scalar α) :
    column.put row value = column ∨
      ∃ cells, Cells.Written column.cells row value cells ∧ column.put row value = { column with cells } := by
  cases h : column.set? row value with
  | none => exact .inl (by rw [put, h, Option.getD_none])
  | some column' =>
    obtain ⟨cells, hc, rfl⟩ := Option.map_eq_some_iff.1 h
    exact .inr ⟨cells, Cells.written_of_set? hc, by rw [put, h, Option.getD_some]⟩

@[simp] theorem name_put (column : Column α) (row : Nat) (value : Scalar α) :
    (column.put row value).name = column.name := by
  rcases put_cases column row value with h | ⟨cells, -, h⟩ <;> rw [h]

@[simp] theorem type_put (column : Column α) (row : Nat) (value : Scalar α) :
    (column.put row value).type = column.type := by
  rcases put_cases column row value with h | ⟨cells, hw, h⟩ <;> rw [h]
  exact hw.type

@[simp] theorem length_put (column : Column α) (row : Nat) (value : Scalar α) :
    (column.put row value).length = column.length := by
  rcases put_cases column row value with h | ⟨cells, hw, h⟩ <;> rw [h]
  exact hw.length

theorem get?_put (column : Column α) (row : Nat) (value : Scalar α) (i : Nat) :
    (column.put row value).get? i =
      if i = row ∧ value.type = column.type ∧ row < column.length then some value else column.get? i := by
  by_cases hf : value.type = column.type ∧ row < column.length
  · cases h : column.set? row value with
    | none => exact absurd hf (set?_eq_none_iff.1 h)
    | some column' =>
      obtain ⟨cells, hc, rfl⟩ := Option.map_eq_some_iff.1 h
      rw [put, h, Option.getD_some]
      simp only [hf, and_true]
      exact (Cells.written_of_set? hc).get? i
  · rw [put_eq_self hf, if_neg fun h => hf h.2]

theorem get?_eq_none_iff {column : Column α} {row : Nat} : column.get? row = none ↔ column.length ≤ row := by
  obtain ⟨name, cells⟩ := column
  cases cells <;> exact Option.map_eq_none_iff.trans List.getElem?_eq_none_iff

theorem get?_eq_none {column : Column α} {row : Nat} (h : column.length ≤ row) : column.get? row = none :=
  get?_eq_none_iff.2 h

theorem strings?_put (column : Column α) (row : Nat) (raw : String) :
    (column.put row (.string raw)).strings? = column.strings?.map fun cells => cells.set row raw := by
  obtain ⟨name, stored⟩ := column
  cases stored with
  | float64 xs => rfl
  | bool xs => rfl
  | string xs =>
    by_cases hr : row < xs.length
    · have hx : Cells.replace? xs row raw = some (xs.set row raw) := if_pos hr
      simp [put, set?, Cells.set?, hx, strings?]
    · have hx : Cells.replace? xs row raw = none := if_neg hr
      have hset : xs.set row raw = xs := List.set_eq_of_length_le (by omega)
      simp [put, set?, Cells.set?, hx, strings?, hset]

theorem length_of_strings? {column : Column α} {cells : List String} (h : column.strings? = some cells) :
    column.length = cells.length := by
  obtain ⟨name, cells'⟩ := column
  cases cells' with
  | string xs => exact congrArg List.length (Option.some_inj.1 h)
  | float64 xs => cases h
  | bool xs => cases h

theorem get?_of_strings? {column : Column α} {cells : List String} (h : column.strings? = some cells) (row : Nat) :
    column.get? row = cells[row]?.map .string := by
  obtain ⟨name, cells'⟩ := column
  cases cells' with
  | string xs => exact Option.some_inj.1 h ▸ rfl
  | float64 xs => cases h
  | bool xs => cases h

theorem strings?_isSome_iff {column : Column α} : column.strings?.isSome ↔ column.type = .string := by
  obtain ⟨name, cells⟩ := column
  cases cells <;> simp [strings?, type, Cells.type]

@[simp] theorem name_zeroed [Quantity α] (name : String) (type : ScalarType) (rows : Nat) :
    (zeroed name type rows : Column α).name = name := rfl

@[simp] theorem type_zeroed [Quantity α] (name : String) (type : ScalarType) (rows : Nat) :
    (zeroed name type rows : Column α).type = type := Cells.type_zeroed type rows

@[simp] theorem length_zeroed [Quantity α] (name : String) (type : ScalarType) (rows : Nat) :
    (zeroed name type rows : Column α).length = rows := Cells.length_zeroed type rows

theorem get?_zeroed [Quantity α] (name : String) (type : ScalarType) {rows row : Nat} (h : row < rows) :
    (zeroed name type rows : Column α).get? row = some (Scalar.zero type) := Cells.get?_zeroed type h

end Column

end Unnest
