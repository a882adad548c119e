import Unnest.Proofs.Derived

/-!
# Places of derived columns

A derived column is at the place of its name (`Derived.index?`), and it is found and written to there just as it is by
its name (`Derived.exists_of_index?`, `Derived.write?_of_index?`). While columns are added, places stay with their
names (`Derived.Grows`); so does the lack of a place, for a name in use (`Derived.IsSlot`).
-/

namespace Unnest

namespace Derived
variable {α : Type} {derived other third : Derived α} {name key : String} {type : ScalarType} {place row : Nat}
  {value : Scalar α} {slot : Option Nat}

theorem index?_eq (derived : Derived α) (name : String) :
    derived.index? name = (Entries.keys derived.fields).findIdx? (· = name) := by
  rw [keys_fields, List.findIdx?_map]
  rfl

theorem column?_eq_bind (derived : Derived α) (name : String) :
    derived.column? name = (derived.index? name).bind fun place => derived.columns[place]? :=
  List.find?_eq_bind_findIdx?_getElem?

theorem index?_eq_none_iff : derived.index? name = none ↔ name ∉ Entries.keys derived.fields := by
  rw [index?_eq, List.findIdx?_eq_none_iff]
  exact ⟨fun h hm => by simpa using h name hm, fun h other ho => decide_eq_false fun he => h (he ▸ ho)⟩

theorem index?_eq_none_of_column? (h : derived.column? name = none) : derived.index? name = none :=
  index?_eq_none_iff.2 (column?_eq_none.1 h)

theorem exists_of_index? (h : derived.index? name = some place) :
    ∃ column, derived.columns[place]? = some column ∧ derived.column? name = some column ∧ column.name = name := by
  obtain ⟨hlt, hname, -⟩ := List.findIdx?_eq_some_iff_getElem.1 h
  refine ⟨derived.columns[place], List.getElem?_eq_getElem hlt, ?_, of_decide_eq_true hname⟩
  rw [column?_eq_bind, h, Option.bind_some, List.getElem?_eq_getElem hlt]

/-- A column at the end has the last place, unless its name has one before. -/
theorem index?_append (derived : Derived α) {column : Column α} (hk : column.name = key) (name : String) :
    ({ derived with columns := derived.columns ++ [column] } : Derived α).index? name =
      (derived.index? name).or (if key = name then some derived.columns.length else none) := by
  rw [index?, List.findIdx?_append]
  by_cases h : key = name <;> simp [hk, h, index?]

/-- No two names have one place. -/
theorem index?_inj (h : derived.index? name = some place) (h' : derived.index? key = some place) : name = key := by
  obtain ⟨column, hc, -, rfl⟩ := exists_of_index? h
  obtain ⟨column', hc', -, rfl⟩ := exists_of_index? h'
  rw [Option.some_inj.1 (hc.symm.trans hc')]

theorem writeCell?_of_findIdx? {columns : List (Column α)} {column : Column α}
    (h : columns.findIdx? (fun c => c.name = name) = some place) (hc : columns[place]? = some column) (row : Nat)
    (value : Scalar α) :
    writeCell? name row value columns = (column.set? row value).map fun column => columns.set place column := by
  induction columns generalizing place with
  | nil => cases h
  | cons first rest ih =>
    rw [List.findIdx?_cons] at h
    rw [writeCell?]
    by_cases hn : first.name = name
    · rw [if_pos (decide_eq_true hn)] at h
      cases h
      cases hc
      rw [if_pos hn]
      rfl
    · rw [if_neg (by simpa using hn)] at h
      obtain ⟨later, hlater, rfl⟩ := Option.map_eq_some_iff.1 h
      rw [if_neg hn, ih hlater hc, Option.map_map]
      rfl

/-- What is known by a place is written to at the place. -/
theorem write?_of_index? (h : derived.index? name = some place) {column : Column α}
    (hc : derived.columns[place]? = some column) (row : Nat) (value : Scalar α) :
    derived.write? name row value =
      (column.set? row value).map fun column => { derived with columns := derived.columns.set place column } := by
  rw [write?, writeCell?_of_findIdx? h hc, Option.map_map]
  rfl

/-- Columns have been added under names that are not in use. -/
structure Grows (derived other : Derived α) : Prop where
  taken : other.taken = derived.taken
  fields : ∃ added, other.fields = derived.fields ++ added ∧ ∀ name ∈ Entries.keys added, name ∉ derived.taken

namespace Grows

theorem refl (derived : Derived α) : derived.Grows derived := ⟨rfl, [], (List.append_nil _).symm, nofun⟩

theorem trans (h : derived.Grows other) (h' : other.Grows third) : derived.Grows third := by
  obtain ⟨added, ha, hfree⟩ := h.fields
  obtain ⟨added', ha', hfree'⟩ := h'.fields
  refine ⟨h'.taken.trans h.taken, added ++ added', by rw [ha', ha, List.append_assoc], fun name hn => ?_⟩
  rw [Entries.keys_append] at hn
  rcases List.mem_append.1 hn with hn | hn
  · exact hfree name hn
  · exact h.taken ▸ hfree' name hn

theorem write : derived.Grows (derived.write name row value) :=
  ⟨taken_write, [], by rw [fields_write, List.append_nil], nofun⟩

theorem require [Quantity α] : derived.Grows (derived.require name type).value.1 := by
  refine ⟨taken_require, ?_⟩
  rw [fields_require]
  split
  · exact ⟨[], (List.append_nil _).symm, nofun⟩
  · rename_i h
    refine ⟨[(name, type)], rfl, fun other ho => ?_⟩
    rw [List.mem_singleton.1 ho]
    exact (not_or.1 h).2

/-- A column keeps its place. -/
theorem index? (h : derived.Grows other) (hp : derived.index? name = some place) :
    other.index? name = some place := by
  obtain ⟨added, ha, -⟩ := h.fields
  rw [index?_eq] at hp
  rw [index?_eq, ha, Entries.keys_append, List.findIdx?_append, hp]
  rfl

end Grows

end Derived

end Unnest
