import Unnest.Derived
import Unnest.Schema
import Unnest.Proofs.Column
import Unnest.Proofs.Entries

/-!
# Derived columns, operation by operation

`Derived.require` and `Derived.write` are read through two views. `fields` lists the names and types of
the columns in order: `require` adds a field at the end if its name is new and not in use
(`fields_require`), `write` changes none. `column?` finds a column by its name: `require` adds a column
of zero values, `write` puts a value into the column that it names. `Inv` is what both keep.
-/

namespace Unnest.Derived
variable {α : Type} {derived : Derived α} {name other : String} {type : ScalarType} {row : Nat}
  {value : Scalar α}

/-- The names and types of the columns in order. -/
def fields (derived : Derived α) : Schema := derived.columns.map fun column => (column.name, column.type)

theorem get?_fields (derived : Derived α) (name : String) :
    Entries.get? derived.fields name = (derived.column? name).map Column.type := by
  unfold fields column?
  induction derived.columns with
  | nil => rfl
  | cons column columns ih => by_cases h : column.name = name <;> simp [Entries.get?, h, ih]

theorem mem_keys_fields : name ∈ Entries.keys derived.fields ↔ (derived.column? name).isSome := by
  rw [← Entries.get?_isSome_iff, get?_fields, Option.isSome_map]

theorem column?_eq_none : derived.column? name = none ↔ name ∉ Entries.keys derived.fields := by
  rw [mem_keys_fields, Option.not_isSome_iff_eq_none]

theorem mem_of_column? {column : Column α} (h : derived.column? name = some column) :
    column ∈ derived.columns := List.mem_of_find?_eq_some h

theorem name_of_column? {column : Column α} (h : derived.column? name = some column) : column.name = name := by
  obtain ⟨hname, -⟩ := List.find?_eq_some_iff_append.1 h
  exact of_decide_eq_true hname

theorem find?_name_of_mem {columns : List (Column α)} (hn : (columns.map Column.name).Nodup)
    {column : Column α} (h : column ∈ columns) :
    columns.find? (fun c => c.name = column.name) = some column := by
  induction columns with
  | nil => simp at h
  | cons first rest ih =>
    obtain ⟨hk, hn⟩ := List.nodup_cons.1 hn
    rcases List.mem_cons.1 h with rfl | h
    · simp
    · have hne : first.name ≠ column.name := fun he => hk (he ▸ List.mem_map_of_mem h)
      rw [List.find?_cons_of_neg (by simpa using hne)]
      exact ih hn h

theorem keys_fields (derived : Derived α) :
    Entries.keys derived.fields = derived.columns.map Column.name := by
  simp [Entries.keys, fields]

theorem column?_of_mem (hn : (Entries.keys derived.fields).Nodup) {column : Column α}
    (h : column ∈ derived.columns) : derived.column? column.name = some column :=
  find?_name_of_mem (keys_fields derived ▸ hn) h

/-- What every operation keeps: names do not repeat and are not in use elsewhere, and all columns are
equally long. -/
structure Inv (derived : Derived α) : Prop where
  nodup : (Entries.keys derived.fields).Nodup
  free : ∀ name ∈ Entries.keys derived.fields, name ∉ derived.taken
  even : ∀ column ∈ derived.columns, column.length = derived.rows

/-! ### Writing -/

/-- The columns after a write, refused or not. -/
theorem getD_writeCell?_cons (column : Column α) (rest : List (Column α)) :
    (writeCell? name row value (column :: rest)).getD (column :: rest) =
      if column.name = name then column.put row value :: rest
      else column :: (writeCell? name row value rest).getD rest := by
  rw [writeCell?]
  split
  · unfold Column.put
    cases column.set? row value <;> rfl
  · cases writeCell? name row value rest <;> rfl

theorem map_writeCell? {β : Type} (f : Column α → β) (hf : ∀ column, f (column.put row value) = f column)
    (columns : List (Column α)) :
    ((writeCell? name row value columns).getD columns).map f = columns.map f := by
  induction columns with
  | nil => rfl
  | cons column rest ih =>
    rw [getD_writeCell?_cons]
    split <;> simp [hf, ih]

theorem find?_writeCell? (columns : List (Column α)) :
    ((writeCell? name row value columns).getD columns).find? (fun column => column.name = other) =
      (columns.find? fun column => column.name = other).map fun column =>
        if other = name then column.put row value else column := by
  induction columns with
  | nil => rfl
  | cons column rest ih =>
    rw [getD_writeCell?_cons]
    by_cases hc : column.name = name <;> by_cases ho : column.name = other
    · simp [hc, ← ho]
    · have hne : other ≠ name := fun h => ho (hc.trans h.symm)
      simp [hc, hne, hc ▸ ho]
    · simp [hc, ← ho]
    · simp [hc, ho, ih]

theorem write_eq (derived : Derived α) (name : String) (row : Nat) (value : Scalar α) :
    derived.write name row value =
      { derived with columns := (writeCell? name row value derived.columns).getD derived.columns } := by
  unfold write write?
  cases writeCell? name row value derived.columns <;> rfl

@[simp] theorem rows_write : (derived.write name row value).rows = derived.rows := by rw [write_eq]

@[simp] theorem taken_write : (derived.write name row value).taken = derived.taken := by rw [write_eq]

@[simp] theorem refused_write : (derived.write name row value).refused = derived.refused := by rw [write_eq]

@[simp] theorem fields_write : (derived.write name row value).fields = derived.fields := by
  rw [write_eq]
  exact map_writeCell? _ (fun column => by simp) derived.columns

theorem column?_write : (derived.write name row value).column? other =
    (derived.column? other).map fun column => if other = name then column.put row value else column := by
  rw [write_eq]
  exact find?_writeCell? derived.columns

theorem writeCell?_eq_none {columns : List (Column α)}
    (h : ∀ column, columns.find? (fun c => c.name = name) = some column → column.set? row value = none) :
    writeCell? name row value columns = none := by
  induction columns with
  | nil => rfl
  | cons column rest ih =>
    rw [writeCell?]
    by_cases hn : column.name = name
    · rw [if_pos hn, h column (by simp [hn]), Option.map_none]
    · rw [if_neg hn, ih fun c hf => h c (by simpa [hn] using hf), Option.map_none]

/-- A write to no column, or to one that does not take the value, is refused. -/
theorem write?_eq_none (h : ∀ column, derived.column? name = some column → column.set? row value = none) :
    derived.write? name row value = none := by
  rw [write?, writeCell?_eq_none h, Option.map_none]

theorem write_eq_self (h : ∀ column, derived.column? name = some column → column.set? row value = none) :
    derived.write name row value = derived := by
  rw [write, write?_eq_none h, Option.getD_none]

/-! ### Requiring -/

theorem value_refuse : (derived.refuse name).value =
    { derived with refused := if derived.refused.contains name then derived.refused
                              else derived.refused ++ [name] } := by
  unfold refuse
  split <;> rfl

variable [Quantity α]

/-- What `require` does: the column is there, its name is in use, or it is made. -/
theorem require_cases (derived : Derived α) (name : String) (type : ScalarType) :
    (∃ column, derived.column? name = some column ∧
        derived.require name type = pure (derived, decide (column.type = type))) ∨
      (derived.column? name = none ∧ name ∈ derived.taken ∧
        derived.require name type = do return (← derived.refuse name, false)) ∨
      (derived.column? name = none ∧ name ∉ derived.taken ∧ derived.require name type = pure
        ({ derived with columns := derived.columns ++ [Column.zeroed name type derived.rows] }, true)) := by
  unfold require
  cases h : derived.column? name with
  | some column => exact .inl ⟨column, rfl, rfl⟩
  | none =>
    by_cases ht : name ∈ derived.taken
    · exact .inr (.inl ⟨rfl, ht, by simp [ht]⟩)
    · exact .inr (.inr ⟨rfl, ht, by simp [ht]⟩)

@[simp] theorem rows_require : (derived.require name type).value.1.rows = derived.rows := by
  rcases require_cases derived name type with ⟨_, _, h⟩ | ⟨_, _, h⟩ | ⟨_, _, h⟩ <;> rw [h] <;>
    simp [value_refuse]

@[simp] theorem taken_require : (derived.require name type).value.1.taken = derived.taken := by
  rcases require_cases derived name type with ⟨_, _, h⟩ | ⟨_, _, h⟩ | ⟨_, _, h⟩ <;> rw [h] <;>
    simp [value_refuse]

theorem columns_require : (derived.require name type).value.1.columns =
    if (derived.column? name).isSome ∨ name ∈ derived.taken then derived.columns
    else derived.columns ++ [Column.zeroed name type derived.rows] := by
  rcases require_cases derived name type with ⟨column, hc, h⟩ | ⟨hc, ht, h⟩ | ⟨hc, ht, h⟩ <;> rw [h]
  · simp [hc]
  · simp [hc, ht, value_refuse]
  · simp [hc, ht]

theorem fields_require : (derived.require name type).value.1.fields =
    if name ∈ Entries.keys derived.fields ∨ name ∈ derived.taken then derived.fields
    else derived.fields ++ [(name, type)] := by
  simp only [mem_keys_fields]
  rw [fields, columns_require]
  split
  · rfl
  · simp [fields]

theorem column?_require : (derived.require name type).value.1.column? other =
    (derived.column? other).or
      (if other = name ∧ name ∉ derived.taken then some (Column.zeroed name type derived.rows) else none) := by
  rw [column?, columns_require]
  split
  · rename_i h
    by_cases hc : other = name ∧ name ∉ derived.taken
    · obtain ⟨rfl, ht⟩ := hc
      obtain ⟨column, hcol⟩ := Option.isSome_iff_exists.1 (h.resolve_right ht)
      rw [hcol, Option.some_or]
      exact hcol
    · rw [if_neg hc, Option.or_none]
      rfl
  · rename_i h
    obtain ⟨-, ht⟩ := not_or.1 h
    rw [List.find?_append]
    by_cases ho : name = other
    · subst ho
      simp [ht, column?]
    · simp [ho, Ne.symm ho, column?]

/-- The answer of `require` is read off the fields and the names in use. -/
theorem snd_require : (derived.require name type).value.2 =
    ((Entries.get? derived.fields name).elim (decide (name ∉ derived.taken)) fun t => decide (t = type)) := by
  rw [get?_fields]
  rcases require_cases derived name type with ⟨column, hc, h⟩ | ⟨hc, ht, h⟩ | ⟨hc, ht, h⟩ <;> rw [h, hc]
  · simp
  · simp [ht]
  · simp [ht]

/-! ### Keeping the invariant -/

omit [Quantity α] in
theorem Inv.of_columns_eq_nil (h : derived.columns = []) : derived.Inv := by
  have hf : derived.fields = [] := by rw [fields, h, List.map_nil]
  refine ⟨?_, ?_, ?_⟩
  · rw [hf]; exact List.nodup_nil
  · rw [hf]; intro name hn; exact absurd hn List.not_mem_nil
  · rw [h]; intro column hc; exact absurd hc List.not_mem_nil

omit [Quantity α] in
theorem Inv.write (h : derived.Inv) : (derived.write name row value).Inv := by
  refine ⟨by simpa using h.nodup, by simpa using h.free, fun column hc => ?_⟩
  have hl : ((writeCell? name row value derived.columns).getD derived.columns).map Column.length =
      derived.columns.map Column.length := map_writeCell? _ (fun c => Column.length_put c row value) _
  rw [write_eq] at hc ⊢
  obtain ⟨c, hm, he⟩ := List.mem_map.1 (hl ▸ List.mem_map_of_mem (f := Column.length) hc)
  exact he ▸ h.even c hm

theorem Inv.require (h : derived.Inv) : (derived.require name type).value.1.Inv := by
  refine ⟨?_, ?_, fun column hc => ?_⟩
  · rw [fields_require]
    split
    · exact h.nodup
    · rename_i hn
      rw [Entries.keys_append]
      refine List.nodup_append.2 ⟨h.nodup, List.nodup_singleton _, fun a ha b hb hab => ?_⟩
      have hb : b = name := List.mem_singleton.1 hb
      exact hn (.inl (hb ▸ hab ▸ ha))
  · rw [fields_require, taken_require]
    split
    · exact h.free
    · rename_i hn
      intro other ho
      rw [Entries.keys_append] at ho
      rcases List.mem_append.1 ho with ho | ho
      · exact h.free other ho
      · exact List.mem_singleton.1 ho ▸ fun ht => hn (.inr ht)
  · rw [columns_require] at hc
    rw [rows_require]
    split at hc
    · exact h.even column hc
    · rcases List.mem_append.1 hc with hc | hc
      · exact h.even column hc
      · rw [List.mem_singleton.1 hc, Column.length_zeroed]

end Unnest.Derived
