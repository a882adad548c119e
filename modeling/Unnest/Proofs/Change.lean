import Unnest.Flatten
import Unnest.Proofs.Derived

/-!
# Changes to derived columns

Filling the derived columns of a text column comes down to a list of `Change`s: columns are required and
cells are written. `Derived.performAll` performs them in order, with the events they report. Two theorems
say what is there afterwards, each by a function of the list alone. The fields are the first requests of
names that are not in use (`fields_performAll`). A cell holds the last value of the column's type that
was written to it (`get?_performAll`), provided that nothing is written before its column was required:
`Covered`.
-/

namespace Unnest

/-- A change to derived columns. -/
inductive Change (α : Type) where
  /-- A column is required. -/
  | require (name : String) (type : ScalarType)
  /-- A cell is written; `reported` says whether a value that the column does not take is reported. -/
  | write (reported : Bool) (name : String) (row : Nat) (value : Scalar α)

namespace Change
variable {α : Type} {name : String} {type : ScalarType} {row : Nat}

/-- The field that a change requires. -/
def field? : Change α → Option (String × ScalarType)
  | require name type => some (name, type)
  | write .. => none

/-- The value that a change writes to a row of the column with a name and type. -/
def value? (name : String) (type : ScalarType) (row : Nat) : Change α → Option (Scalar α)
  | require .. => none
  | write _ n r value => if n = name ∧ r = row ∧ value.type = type then some value else none

/-- The fields that changes require, in order. -/
def requests (changes : List (Change α)) : List (String × ScalarType) := changes.filterMap field?

/-- The last value that changes write to a row of the column with a name and type. -/
def last? (name : String) (type : ScalarType) (row : Nat) (changes : List (Change α)) :
    Option (Scalar α) :=
  (changes.filterMap (value? name type row)).getLast?

/-- Every column is required before it is written to; the known ones have been before. -/
def Covered : (known : List String) → List (Change α) → Prop
  | _, [] => True
  | known, require name _ :: rest => Covered (name :: known) rest
  | known, write _ name _ _ :: rest => name ∈ known ∧ Covered known rest

@[simp] theorem requests_nil : requests ([] : List (Change α)) = [] := rfl

@[simp] theorem requests_append (xs ys : List (Change α)) :
    requests (xs ++ ys) = requests xs ++ requests ys := List.filterMap_append

@[simp] theorem requests_require (xs : List (Change α)) :
    requests (require name type :: xs) = (name, type) :: requests xs := rfl

@[simp] theorem requests_write (reported : Bool) (value : Scalar α) (xs : List (Change α)) :
    requests (write reported name row value :: xs) = requests xs := rfl

@[simp] theorem last?_nil : last? name type row ([] : List (Change α)) = none := rfl

theorem last?_append (xs ys : List (Change α)) :
    last? name type row (xs ++ ys) = (last? name type row ys).or (last? name type row xs) := by
  simp [last?]

theorem last?_singleton (change : Change α) :
    last? name type row [change] = change.value? name type row := by
  cases h : change.value? name type row <;> simp [last?, h]

theorem last?_cons (change : Change α) (xs : List (Change α)) :
    last? name type row (change :: xs) = (last? name type row xs).or (change.value? name type row) := by
  rw [← last?_singleton, ← last?_append, List.singleton_append]

namespace Covered
variable {known : List String} {xs ys : List (Change α)}

theorem mono {known' : List String} (h : Covered known xs) (hk : ∀ n ∈ known, n ∈ known') :
    Covered known' xs := by
  induction xs generalizing known known' with
  | nil => trivial
  | cons change xs ih =>
    cases change with
    | require n t =>
      have h : Covered (n :: known) xs := h
      refine ih h fun m hm => ?_
      rcases List.mem_cons.1 hm with rfl | hm
      · exact List.mem_cons_self
      · exact List.mem_cons_of_mem _ (hk m hm)
    | write b n r v => exact ⟨hk n h.1, ih h.2 hk⟩

theorem append_iff : Covered known (xs ++ ys) ↔
    Covered known xs ∧ Covered (Entries.keys (requests xs) ++ known) ys := by
  induction xs generalizing known with
  | nil => exact ⟨fun h => ⟨trivial, h⟩, fun h => h.2⟩
  | cons change xs ih =>
    cases change with
    | require n t =>
      have hmem : ∀ m, m ∈ Entries.keys (requests xs) ++ n :: known ↔
          m ∈ Entries.keys (requests (require n t :: xs)) ++ known := by
        intro m
        simp only [requests_require, Entries.keys_cons, List.mem_append, List.mem_cons]
        tauto
      refine ih.trans (and_congr_right fun _ => ?_)
      exact ⟨fun h => h.mono fun m => (hmem m).1, fun h => h.mono fun m => (hmem m).2⟩
    | write b n r v =>
      exact ⟨fun h => ⟨⟨h.1, (ih.1 h.2).1⟩, (ih.1 h.2).2⟩, fun h => ⟨h.1.1, ih.2 ⟨h.1.2, h.2⟩⟩⟩

/-- What was never required was never written. -/
theorem last?_eq_none (h : Covered known xs) (hn : name ∉ known) (hx : name ∉ Entries.keys (requests xs)) :
    last? name type row xs = none := by
  induction xs generalizing known with
  | nil => rfl
  | cons change xs ih =>
    rw [last?_cons]
    cases change with
    | require n t =>
      obtain ⟨hne, hx⟩ := not_or.1 (mt List.mem_cons.2 hx)
      rw [ih h (fun hm => (List.mem_cons.1 hm).elim hne hn) hx]
      rfl
    | write b n r v =>
      have hne : n ≠ name := fun he => hn (he ▸ h.1)
      rw [ih h.2 hn hx, value?, if_neg fun hv => hne hv.1, Option.or_none]

end Covered

end Change

namespace Derived
open Change
variable {α : Type} {derived : Derived α} {changes : List (Change α)}

theorem value_fillScalar (derived : Derived α) (row : Nat) (scalars : Entries String (Scalar α))
    (key : String) : (derived.fillScalar row scalars key).value =
      match Entries.get? scalars key with
      | some value => derived.write key row value
      | none => derived := by
  unfold fillScalar
  cases hv : Entries.get? scalars key with
  | none => cases derived.column? key <;> rfl
  | some value =>
    cases hc : derived.column? key with
    | none => exact (write_eq_self fun column hcol => absurd (hc.symm.trans hcol) (by simp)).symm
    | some column =>
      simp only [write]
      cases derived.write? key row value <;> rfl

variable [Quantity α]

/-- Performs a change. -/
def perform (derived : Derived α) : Change α → Logged (Derived α)
  | .require name type => do return (← derived.require name type).1
  | .write true key row value => derived.fillScalar row [(key, value)] key
  | .write false name row value => pure (derived.write name row value)

/-- Performs changes in order. -/
def performAll (derived : Derived α) (changes : List (Change α)) : Logged (Derived α) :=
  changes.foldlM perform derived

@[simp] theorem value_perform_require (name : String) (type : ScalarType) :
    (derived.perform (.require name type)).value = (derived.require name type).value.1 := rfl

@[simp] theorem value_perform_write (reported : Bool) (name : String) (row : Nat) (value : Scalar α) :
    (derived.perform (.write reported name row value)).value = derived.write name row value := by
  cases reported with
  | false => rfl
  | true => simp [perform, value_fillScalar, Entries.get?]

theorem performAll_append (xs ys : List (Change α)) :
    derived.performAll (xs ++ ys) = derived.performAll xs >>= fun derived => derived.performAll ys :=
  List.foldlM_append

theorem value_performAll_append_singleton (change : Change α) :
    (derived.performAll (changes ++ [change])).value =
      ((derived.performAll changes).value.perform change).value := by
  simp [performAll]

/-- What requests and writes keep, changes keep. -/
theorem performAll_induction {P : Derived α → Prop} (h : P derived)
    (require : ∀ derived name type, P derived → P (derived.require name type).value.1)
    (write : ∀ derived name row value, P derived → P (derived.write name row value)) :
    P (derived.performAll changes).value := by
  induction changes using List.reverseRecOn with
  | nil => exact h
  | append_singleton xs change ih =>
    rw [value_performAll_append_singleton]
    cases change with
    | require name type => exact require _ name type ih
    | write b name row value => rw [value_perform_write]; exact write _ name row value ih

theorem Inv.performAll (h : derived.Inv) : (derived.performAll changes).value.Inv :=
  performAll_induction h (fun _ _ _ h => h.require) (fun _ _ _ _ h => h.write)

@[simp] theorem rows_performAll : (derived.performAll changes).value.rows = derived.rows :=
  performAll_induction (P := fun d => d.rows = derived.rows) rfl
    (fun _ _ _ h => rows_require.trans h) (fun _ _ _ _ h => rows_write.trans h)

@[simp] theorem taken_performAll : (derived.performAll changes).value.taken = derived.taken :=
  performAll_induction (P := fun d => d.taken = derived.taken) rfl
    (fun _ _ _ h => taken_require.trans h) (fun _ _ _ _ h => taken_write.trans h)

/-- The fields after changes: the ones before, then the first requests of other names that are not in
use. -/
theorem fields_performAll (h : derived.Inv) : (derived.performAll changes).value.fields =
    Entries.firsts (derived.fields ++ (requests changes).filter fun field => field.1 ∉ derived.taken) := by
  induction changes using List.reverseRecOn with
  | nil => simp [performAll, Entries.firsts_eq_self h.nodup]
  | append_singleton xs change ih =>
    rw [value_performAll_append_singleton]
    cases change with
    | write b name row value =>
      simp [ih]
    | require name type =>
      rw [value_perform_require, fields_require, taken_performAll, ih, requests_append, requests_require,
        requests_nil, List.filter_append]
      by_cases ht : name ∈ derived.taken
      · simp [ht]
      · have hf : [(name, type)].filter (fun field => field.1 ∉ derived.taken) = [(name, type)] := by
          simp [ht]
        rw [hf, ← List.append_assoc, Entries.firsts_append_singleton]
        simp only [ht, or_false, Entries.mem_keys_firsts]

/-- A name that was required is a column now, or it is in use. -/
theorem mem_fields_performAll (h : derived.Inv) {name : String} :
    name ∈ Entries.keys (derived.performAll changes).value.fields ↔
      name ∈ Entries.keys derived.fields ∨ name ∈ Entries.keys (requests changes) ∧ name ∉ derived.taken := by
  rw [fields_performAll h, Entries.mem_keys_firsts, Entries.keys_append, List.mem_append,
    Entries.keys_filter (fun name => name ∉ derived.taken), List.mem_filter, decide_eq_true_iff]

/-- The cells after changes to no columns: the last value written, or else the zero value. -/
theorem get?_performAll (h : derived.columns = []) (hc : Covered [] changes) {name : String}
    {column : Column α} (hcol : (derived.performAll changes).value.column? name = some column) {row : Nat}
    (hr : row < derived.rows) : column.get? row =
      some ((last? name column.type row changes).getD (Scalar.zero column.type)) := by
  have hi := Inv.of_columns_eq_nil h
  induction changes using List.reverseRecOn generalizing column with
  | nil =>
    rw [column?_eq_none.2] at hcol
    · cases hcol
    · simp [performAll, fields, h]
  | append_singleton xs change ih =>
    obtain ⟨hxs, hlast⟩ := Covered.append_iff.1 hc
    rw [value_performAll_append_singleton] at hcol
    rw [last?_append, last?_singleton]
    cases change with
    | require n t =>
      rw [value_perform_require, column?_require, rows_performAll, taken_performAll] at hcol
      rw [value?, Option.none_or]
      cases hbefore : (derived.performAll xs).value.column? name with
      | some before =>
        rw [hbefore, Option.some_or, Option.some_inj] at hcol
        exact hcol ▸ ih hxs hbefore
      | none =>
        rw [hbefore, Option.none_or] at hcol
        split at hcol
        · rename_i hn
          obtain ⟨rfl, ht⟩ := hn
          obtain rfl := Option.some_inj.1 hcol
          -- a column that is new now was not written to before
          have hx : name ∉ Entries.keys (requests xs) := fun hm =>
            column?_eq_none.1 hbefore ((mem_fields_performAll hi).2 (.inr ⟨hm, ht⟩))
          rw [hxs.last?_eq_none List.not_mem_nil hx, Option.getD_none, Column.type_zeroed,
            Column.get?_zeroed _ _ hr]
        · cases hcol
    | write b n r v =>
      rw [value_perform_write, column?_write] at hcol
      obtain ⟨before, hbefore, rfl⟩ := Option.map_eq_some_iff.1 hcol
      have ih := ih hxs hbefore
      by_cases hn : name = n
      · subst hn
        have hlen : before.length = derived.rows := by
          rw [hi.performAll.even before (mem_of_column? hbefore), rows_performAll]
        rw [if_pos rfl, Column.type_put, Column.get?_put, ih, value?, hlen]
        by_cases hv : r = row ∧ v.type = before.type
        · simp [hv, hr]
        · have hv' : ¬ (row = r ∧ v.type = before.type ∧ r < derived.rows) := fun hw =>
            hv ⟨hw.1.symm, hw.2.1⟩
          simp [hv, hv']
      · rw [if_neg hn, ih, value?, if_neg fun hv => hn hv.1.symm, Option.none_or]

end Derived

end Unnest
