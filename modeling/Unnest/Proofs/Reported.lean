import Unnest.Proofs.Change

/-!
# What changes report

Two kinds of events are reported while derived columns are filled: a name in use was asked for, and a value
did not fit its column. Of both the list of changes alone says which are reported, and in which order. Names
in use are reported once each, when they are first required (`Derived.refusals_performAll`). A value is
reported if it is to be, and if the first request of the name of its column was for another type, or if the
column has no such row (`Derived.drops_performAll`): the columns that are there when it is written have by
then the type that they keep.
-/

namespace Unnest

namespace Event

/-- Whether an event says that a name is in use. -/
def isRefusal : Event → Bool
  | nameInUse .. => true
  | _ => false

/-- Whether an event says that a value was dropped. -/
def isDrop : Event → Bool
  | valueDropped .. => true
  | _ => false

end Event

namespace Change
variable {α : Type}

/-- The event that a change reports if columns have `rows` rows and the types that `type?` gives. -/
def drop? (rows : Nat) (type? : String → Option ScalarType) : Change α → Option Event
  | write true name row value =>
    if (type? name).any fun type => type ≠ value.type ∨ rows ≤ row then some (.valueDropped name row)
    else none
  | _ => none

section
variable {rows : Nat} {type? type?' : String → Option ScalarType} {change : Change α}

theorem drop?_eq_none_or : change.drop? rows type? = none ∨
    ∃ name row, change.drop? rows type? = some (.valueDropped name row) := by
  unfold drop?
  split
  · split
    · exact .inr ⟨_, _, rfl⟩
    · exact .inl rfl
  · exact .inl rfl

theorem drop?_congr (h : ∀ reported name row value, change = write reported name row value →
    type? name = type?' name) : change.drop? rows type? = change.drop? rows type?' := by
  cases change with
  | require name type => rfl
  | write reported name row value =>
    cases reported with
    | false => rfl
    | true => rw [drop?, drop?, h _ _ _ _ rfl]

end

/-- What is written to was required, or it was known. -/
theorem Covered.mem_of_write {known : List String} {changes : List (Change α)} (h : Covered known changes)
    {reported : Bool} {name : String} {row : Nat} {value : Scalar α}
    (hm : write reported name row value ∈ changes) :
    name ∈ Entries.keys (requests changes) ∨ name ∈ known := by
  obtain ⟨before, after, rfl⟩ := List.append_of_mem hm
  obtain ⟨-, hn, -⟩ := append_iff.1 h
  rw [requests_append, Entries.keys_append, List.mem_append]
  exact (List.mem_append.1 hn).imp_left .inl

end Change

namespace Derived
open Change hiding require write
variable {α : Type} {derived : Derived α} {name : String} {type : ScalarType} {row : Nat}
  {value : Scalar α} {changes : List (Change α)}

@[simp] theorem frame_write : (derived.write name row value).frame = derived.frame := by rw [write_eq]

@[simp] theorem source_write : (derived.write name row value).source = derived.source := by rw [write_eq]

/-- A column refuses values of other types, and those for rows that it does not have. -/
theorem write?_isNone_iff {column : Column α} (h : derived.column? name = some column) (row : Nat)
    (value : Scalar α) :
    (derived.write? name row value).isNone ↔ column.type ≠ value.type ∨ column.length ≤ row := by
  have hset : (derived.write? name row value).isNone ↔ column.set? row value = none := by
    rw [write?, Option.isNone_map]
    unfold column? at h
    generalize derived.columns = columns at h
    induction columns with
    | nil => cases h
    | cons first rest ih =>
      rw [writeCell?]
      by_cases hn : first.name = name
      · obtain rfl : first = column := by simpa [hn] using h
        rw [if_pos hn, Option.isNone_map, Option.isNone_iff_eq_none]
      · rw [if_neg hn, Option.isNone_map]
        exact ih (by simpa [hn] using h)
  rw [hset, Column.set?_eq_none_iff, not_and_or, Nat.not_lt]
  exact or_congr_left (not_congr eq_comm)

variable [Quantity α]

@[simp] theorem frame_require : (derived.require name type).value.1.frame = derived.frame := by
  rcases require_cases derived name type with ⟨_, _, h⟩ | ⟨_, _, h⟩ | ⟨_, _, h⟩ <;> rw [h] <;>
    simp [value_refuse]

@[simp] theorem source_require : (derived.require name type).value.1.source = derived.source := by
  rcases require_cases derived name type with ⟨_, _, h⟩ | ⟨_, _, h⟩ | ⟨_, _, h⟩ <;> rw [h] <;>
    simp [value_refuse]

@[simp] theorem frame_performAll : (derived.performAll changes).value.frame = derived.frame :=
  performAll_induction (P := fun d => d.frame = derived.frame) rfl
    (fun _ _ _ h => frame_require.trans h) (fun _ _ _ _ h => frame_write.trans h)

@[simp] theorem source_performAll : (derived.performAll changes).value.source = derived.source :=
  performAll_induction (P := fun d => d.source = derived.source) rfl
    (fun _ _ _ h => source_require.trans h) (fun _ _ _ _ h => source_write.trans h)

theorem events_performAll_append_singleton (change : Change α) :
    (derived.performAll (changes ++ [change])).events =
      (derived.performAll changes).events ++ ((derived.performAll changes).value.perform change).events := by
  simp [performAll]

/-! ### One change -/

@[simp] theorem events_perform_require :
    (derived.perform (.require name type)).events = (derived.require name type).events := by
  show (Prod.fst <$> derived.require name type).events = _
  exact Traced.events_map _ _

/-- A request notes and reports its name if it is in use, unless it was noted before. -/
theorem refusal_require (h : derived.Inv) (name : String) (type : ScalarType) :
    let new := if name ∈ derived.taken ∧ name ∉ derived.refused then [name] else []
    (derived.require name type).value.1.refused = derived.refused ++ new ∧
      (derived.require name type).events = new.map (.nameInUse derived.frame derived.source) := by
  rcases require_cases derived name type with ⟨column, hc, he⟩ | ⟨-, ht, he⟩ | ⟨-, ht, he⟩
  · -- no column has a name in use
    have hk : name ∈ Entries.keys derived.fields := mem_keys_fields.2 (by rw [hc]; rfl)
    simp [he, h.free name hk]
  · by_cases hr : name ∈ derived.refused <;> simp [he, refuse, ht, hr]
  · simp [he, ht]

/-- What a write reports. -/
theorem events_perform_write (h : derived.Inv) (reported : Bool) :
    (derived.perform (.write reported name row value)).events =
      ((Change.write reported name row value).drop? derived.rows (Entries.get? derived.fields)).toList := by
  cases reported with
  | false => rfl
  | true =>
    have hkey : Entries.get? [(name, value)] name = some value := by simp [Entries.get?]
    rw [perform, fillScalar, hkey, drop?, get?_fields]
    cases hc : derived.column? name with
    | none => rfl
    | some column =>
      have hnone := write?_isNone_iff hc row value
      rw [h.even column (mem_of_column? hc)] at hnone
      rw [Option.map_some, Option.any_some]
      dsimp only
      cases hw : derived.write? name row value with
      | none =>
        rw [if_pos (decide_eq_true (hnone.1 (by rw [hw]; rfl)))]
        rfl
      | some written =>
        rw [if_neg fun hd => by simpa [hw] using hnone.2 (of_decide_eq_true hd)]
        rfl

/-! ### All changes -/

/-- Names in use are reported once each, in the order in which they are first required. -/
theorem refusals_performAll (h : derived.Inv) (hr : derived.refused = []) :
    (derived.performAll changes).value.refused =
        ((Entries.keys (requests changes)).filter (· ∈ derived.taken)).eraseDups ∧
      (derived.performAll changes).events.filter Event.isRefusal =
        ((Entries.keys (requests changes)).filter (· ∈ derived.taken)).eraseDups.map
          (.nameInUse derived.frame derived.source) := by
  induction changes using List.reverseRecOn with
  | nil => exact ⟨hr, rfl⟩
  | append_singleton xs change ih =>
    obtain ⟨hrefused, hevents⟩ := ih
    rw [value_performAll_append_singleton, events_performAll_append_singleton, List.filter_append, hevents]
    cases change with
    | write reported name row value =>
      rw [value_perform_write, refused_write, events_perform_write h.performAll, requests_append,
        requests_write, requests_nil, List.append_nil]
      refine ⟨hrefused, ?_⟩
      rcases drop?_eq_none_or with hd | ⟨n, r, hd⟩ <;> rw [hd] <;> exact List.append_nil _
    | require name type =>
      have hinv : (derived.performAll xs).value.Inv := h.performAll
      obtain ⟨hvalue, hnew⟩ := refusal_require hinv name type
      rw [value_perform_require, events_perform_require, hvalue, hnew, hrefused, taken_performAll,
        frame_performAll, source_performAll, requests_append, Entries.keys_append, List.filter_append]
      by_cases ht : name ∈ derived.taken
      · have hkeys : (Entries.keys (requests [Change.require (α := α) name type])).filter (· ∈ derived.taken) =
            [name] := by simp [ht]
        rw [hkeys, Entries.eraseDups_append_singleton]
        by_cases hm : name ∈ (Entries.keys (requests xs)).filter (· ∈ derived.taken)
        · simp [hm]
        · simp [hm, ht, Event.isRefusal]
      · simp [ht]

/-- The type that a column gets, if its name is not in use: that of the first request. -/
theorem get?_fields_performAll (h : derived.columns = []) : Entries.get?
    (derived.performAll changes).value.fields name =
      if name ∈ derived.taken then none else Entries.get? (requests changes) name := by
  have hf : derived.fields = [] := by rw [fields, h, List.map_nil]
  rw [fields_performAll (Inv.of_columns_eq_nil h), hf, List.nil_append, Entries.get?_firsts,
    Entries.get?_filter fun name => name ∉ derived.taken]
  by_cases ht : name ∈ derived.taken <;> simp [ht]

/-- Values are reported by the types that their columns have in the end. -/
theorem drops_performAll (h : derived.columns = []) (hc : Covered [] changes) :
    (derived.performAll changes).events.filter Event.isDrop = changes.filterMap
      (drop? derived.rows fun name => Entries.get? (derived.performAll changes).value.fields name) := by
  simp only [get?_fields_performAll h]
  induction changes using List.reverseRecOn with
  | nil => rfl
  | append_singleton xs change ih =>
    obtain ⟨hxs, -⟩ := Covered.append_iff.1 hc
    rw [events_performAll_append_singleton, List.filter_append, ih hxs, List.filterMap_append]
    cases change with
    | write reported name row value =>
      rw [events_perform_write (Inv.of_columns_eq_nil h).performAll, rows_performAll, requests_append,
        requests_write, requests_nil, List.append_nil]
      have htypes : Entries.get? (derived.performAll xs).value.fields = fun name =>
          if name ∈ derived.taken then none else Entries.get? (requests xs) name :=
        funext fun name => get?_fields_performAll h
      rw [htypes]
      refine congrArg (_ ++ ·) ?_
      rw [List.filterMap_cons, List.filterMap_nil]
      rcases drop?_eq_none_or with hd | ⟨n, r, hd⟩ <;> rw [hd] <;> rfl
    | require name type =>
      have hnone : ((derived.performAll xs).value.perform (.require name type)).events.filter Event.isDrop =
          [] := by
        have hinv : (derived.performAll xs).value.Inv := (Inv.of_columns_eq_nil h).performAll
        obtain ⟨-, hnew⟩ := refusal_require hinv name type
        rw [events_perform_require, hnew]
        split <;> rfl
      rw [hnone]
      refine congrArg (· ++ []) (List.filterMap_congr fun change hm => drop?_congr fun _ n _ _ he => ?_)
      -- what is written to before was required before, so the request changes no type
      have hn : n ∈ Entries.keys (requests xs) := (hxs.mem_of_write (he ▸ hm)).resolve_right List.not_mem_nil
      obtain ⟨first, hfirst⟩ := Option.isSome_iff_exists.1 (Entries.get?_isSome_iff.2 hn)
      rw [requests_append, Entries.get?_append, hfirst, Option.some_or]

end Derived

end Unnest
