import Unnest.Proofs.Flatten.Changes

/-!
# The last value written to a cell

The changes of one row write its scalars, then its anomaly scores, then its shares. So the last value that
they write to the cell of a column is what the payload supplies for it (`Payload.last?_changes`), and the
changes of a text column write to a row what the payload of that row does (`Payload.last?_rowsChanges`).
Every column is required before any of this is written to it (`Payload.covered_columnChanges`).
-/

namespace Unnest
variable {α : Type}

namespace Change
variable {name : String} {type : ScalarType} {row i : Nat} {known : List String} {xs : List (Change α)}

theorem last?_eq_none_of_forall (h : ∀ change ∈ xs, change.value? name type row = none) :
    last? name type row xs = none := by
  rw [last?, List.filterMap_eq_nil_iff.2 h, List.getLast?_nil]

theorem Covered.of_forall_write (h : ∀ change ∈ xs, ∃ b n r v, change = write b n r v ∧ n ∈ known) :
    Covered known xs := by
  induction xs with
  | nil => trivial
  | cons change xs ih =>
    obtain ⟨b, n, r, v, rfl, hn⟩ := h change List.mem_cons_self
    exact ⟨hn, ih fun c hc => h c (List.mem_cons_of_mem _ hc)⟩

theorem Covered.flatMap {β : Type} {f : β → List (Change α)} {l : List β}
    (h : ∀ a ∈ l, Covered known (f a)) : Covered known (l.flatMap f) := by
  induction l with
  | nil => trivial
  | cons a l ih =>
    rw [List.flatMap_cons]
    refine append_iff.2 ⟨h a List.mem_cons_self, ?_⟩
    exact (ih fun b hb => h b (List.mem_cons_of_mem _ hb)).mono fun n hn => List.mem_append_right _ hn

theorem covered_map_require (schema : Schema) :
    Covered (α := α) known (schema.map fun (key, type) => .require key type) := by
  induction schema generalizing known with
  | nil => trivial
  | cons field schema ih => exact ih

theorem mem_ofScalars {schema : Schema} {scalars : Entries String (Scalar α)} {change : Change α}
    (h : change ∈ ofScalars schema row scalars) :
    ∃ key ∈ Entries.keys schema, ∃ value, change = .write true key row value := by
  obtain ⟨key, hk, hv⟩ := List.mem_filterMap.1 h
  obtain ⟨value, -, rfl⟩ := Option.map_eq_some_iff.1 hv
  exact ⟨key, hk, value, rfl⟩

theorem mem_ofShares {shares : List (String × α)} {change : Change α} (h : change ∈ ofShares row shares) :
    ∃ share ∈ shares, change = .write false share.1 row (.float64 share.2) := by
  obtain ⟨share, hs, rfl⟩ := List.mem_map.1 h
  exact ⟨share, hs, rfl⟩

theorem last?_ofScalars (schema : Schema) (scalars : Entries String (Scalar α)) :
    last? name type row (ofScalars schema row scalars) = if name ∈ Entries.keys schema then
      (Entries.get? scalars name).filter fun value => value.type = type else none := by
  unfold ofScalars
  induction Entries.keys schema with
  | nil => rfl
  | cons key keys ih =>
    cases hv : Entries.get? scalars key with
    | none =>
      rw [List.filterMap_cons_none (by rw [hv, Option.map_none]), ih]
      by_cases hk : name = key
      · simp [hk, hv]
      · simp [hk]
    | some value =>
      rw [List.filterMap_cons_some (by rw [hv, Option.map_some]), last?_cons, ih]
      by_cases hk : name = key
      · subst hk
        by_cases ht : value.type = type <;> by_cases hm : name ∈ keys <;>
          simp [value?, hv, ht, hm, Option.filter]
      · simp [value?, hk, Ne.symm hk]

theorem last?_ofShares (shares : List (String × α)) : last? name type row (ofShares row shares) =
    if type = .float64 then (Entries.last? shares name).map .float64 else none := by
  induction shares with
  | nil => split <;> rfl
  | cons share shares ih =>
    obtain ⟨column, value⟩ := share
    rw [Entries.last?_cons]
    show last? name type row (.write false column row (.float64 value) :: ofShares row shares) = _
    rw [last?_cons, ih]
    rcases eq_or_ne type .float64 with rfl | ht
    · by_cases hn : column = name <;> simp [value?, hn, Scalar.type]
    · simp [value?, ht, ht.symm, Scalar.type]

end Change

namespace Diagnostic
open Change
variable {names : NameMap} {options : Options} {usable : String → Bool} {name : String} {type : ScalarType}
  {row : Nat} {known : List String}

theorem covered_changes (diagnostic : Diagnostic α) :
    Covered known (diagnostic.changes names options usable row) := by
  unfold changes anomalyChanges
  split
  · cases diagnostic.anomalyScore with
    | none => trivial
    | some score => exact ⟨List.mem_cons_self, trivial⟩
  · trivial

theorem value?_of_mem_changes {diagnostic : Diagnostic α} {change : Change α}
    (h : change ∈ diagnostic.changes names options usable row) {i : Nat} (hi : row ≠ i) :
    change.value? name type i = none := by
  unfold changes anomalyChanges at h
  rcases List.mem_cons.1 h with rfl | h
  · rfl
  · split at h
    · cases hs : diagnostic.anomalyScore with
      | none => simp [hs] at h
      | some score =>
        simp only [hs, List.mem_cons, List.not_mem_nil, or_false] at h
        rcases h with rfl | rfl
        · rfl
        · exact if_neg fun hw => hi hw.2.1
    · exact absurd h List.not_mem_nil

theorem last?_changes (diagnostic : Diagnostic α) :
    last? name type row (diagnostic.changes names options usable row) = if type = .float64 then
      (Entries.last? (scores names options (accepted names options usable [diagnostic])) name).map .float64
    else none := by
  unfold changes anomalyChanges
  rw [last?_cons]
  by_cases hu : usable (diagnostic.contributionColumn names options)
  · cases hs : diagnostic.anomalyScore with
    | none => simp [value?, accepted, scores, hs, hu, Entries.last?]
    | some score =>
      have hsc : scores names options [diagnostic] = [(diagnostic.anomalyColumn names options, score)] := by
        simp [scores, hs]
      have hacc : accepted names options usable [diagnostic] = [diagnostic] := by simp [accepted, hu]
      rw [if_pos hu, last?_cons, last?_singleton, hacc, hsc, Entries.last?_singleton]
      rcases eq_or_ne type .float64 with rfl | hf
      · by_cases hn : diagnostic.anomalyColumn names options = name <;> simp [value?, hn, Scalar.type]
      · simp [value?, Scalar.type, hf, hf.symm]
  · simp [value?, accepted, scores, hu, Entries.last?]

theorem last?_flatMap_changes (diagnostics : List (Diagnostic α)) :
    last? name type row (diagnostics.flatMap (changes names options usable row)) = if type = .float64 then
      (Entries.last? (scores names options (accepted names options usable diagnostics)) name).map .float64
    else none := by
  induction diagnostics with
  | nil => split <;> rfl
  | cons diagnostic rest ih =>
    have hsc : scores names options (accepted names options usable (diagnostic :: rest)) =
        scores names options (accepted names options usable [diagnostic]) ++
          scores names options (accepted names options usable rest) := by
      rw [scores, scores, scores, ← List.filterMap_append, accepted, accepted, accepted,
        ← List.filter_append]
      rfl
    rw [List.flatMap_cons, last?_append, ih, last?_changes, hsc, Entries.last?_append]
    split
    · rw [Option.map_or]
    · rfl

end Diagnostic

namespace Payload
open Change
variable [Quantity α] {names : NameMap} {options : Options} {usable : String → Bool} {schema : Schema}
  {name : String} {type : ScalarType} {row : Nat} {payload : Payload}

/-- A share belongs to the contribution column of an accepted diagnostic. -/
theorem exists_of_share? (h : (payload.share? (α := α) names options usable name).isSome) :
    ∃ diagnostic ∈ payload.diagnostics (α := α) options.segmentRule,
      usable name ∧ diagnostic.contributionColumn names options = name := by
  have hkey := Shares.mem_keys_of_share? h
  rw [shares, Entries.keys_latest, List.mem_eraseDups] at hkey
  obtain ⟨diagnostic, hd, hu, rfl, -⟩ := (Diagnostic.mem_keys_accepted
    (Diagnostic.contributionColumn names options) Diagnostic.contribution).1 hkey
  exact ⟨diagnostic, hd, hu, rfl⟩

/-- In one row every column is required before it is written to, given those of the schema. -/
theorem covered_changes (payload : Payload) : Covered (α := α) (Entries.keys schema)
    (payload.changes names options schema usable row) := by
  refine Covered.append_iff.2 ⟨Covered.of_forall_write fun change hc => ?_, Covered.append_iff.2
    ⟨Covered.flatMap fun diagnostic _ => diagnostic.covered_changes,
      Covered.of_forall_write fun change hc => ?_⟩⟩
  · obtain ⟨key, hk, value, rfl⟩ := mem_ofScalars hc
    exact ⟨true, key, row, value, rfl, hk⟩
  · obtain ⟨share, hs, rfl⟩ := mem_ofShares hc
    refine ⟨false, share.1, row, _, rfl, List.mem_append_left _ ?_⟩
    have hshare : (payload.share? (α := α) names options usable share.1).isSome := by
      rw [share?, ← Shares.get?_normalized, Entries.get?_isSome_iff]
      exact List.mem_map_of_mem hs
    obtain ⟨diagnostic, hd, -, hn⟩ := exists_of_share? hshare
    have hfield : (share.1, ScalarType.float64) ∈ diagnostic.fields names options usable :=
      Diagnostic.mem_fields.2 (.inl (by rw [hn]))
    rw [requests, List.filterMap_flatMap]
    rw [← Diagnostic.requests_changes names options usable row] at hfield
    exact List.mem_map.2 ⟨_, List.mem_flatMap.2 ⟨diagnostic, hd, hfield⟩, rfl⟩

theorem covered_rowsChanges (row : Nat) (payloads : List (Option Payload)) :
    Covered (α := α) (Entries.keys schema) (rowsChanges names options schema usable row payloads) := by
  induction payloads generalizing row with
  | nil => trivial
  | cons payload rest ih =>
    cases payload with
    | none => exact ih (row + 1)
    | some payload =>
      refine Covered.append_iff.2 ⟨payload.covered_changes, ?_⟩
      exact (ih (row + 1)).mono fun n hn => List.mem_append_right _ hn

theorem covered_columnChanges (inUse : List String) (payloads : List (Option Payload)) :
    Covered (α := α) [] (columnChanges names options inUse payloads) := by
  refine Covered.append_iff.2 ⟨covered_map_require _, ?_⟩
  rw [requests_map_require, List.append_nil]
  exact covered_rowsChanges 0 payloads

theorem value?_of_mem_changes {change : Change α} (h : change ∈ payload.changes names options schema usable row)
    {i : Nat} (hi : row ≠ i) : change.value? name type i = none := by
  rcases List.mem_append.1 h with h | h
  · obtain ⟨key, -, value, rfl⟩ := mem_ofScalars h
    exact if_neg fun hw => hi hw.2.1
  · rcases List.mem_append.1 h with h | h
    · obtain ⟨diagnostic, -, h⟩ := List.mem_flatMap.1 h
      exact Diagnostic.value?_of_mem_changes h hi
    · obtain ⟨share, -, rfl⟩ := mem_ofShares h
      exact if_neg fun hw => hi hw.2.1

/-- What the changes of one row leave in a cell of that row is what the payload supplies. -/
theorem last?_changes (hshare : (payload.share? (α := α) names options usable name).isSome → type = .float64)
    (hscalar : (payload.scalar? (α := α) options name).isSome → name ∈ Entries.keys schema) :
    (last? name type row (payload.changes names options schema usable row)).getD (Scalar.zero type) =
      payload.cell (α := α) names options usable name type := by
  rw [changes, last?_append, last?_append, last?_ofShares, Diagnostic.last?_flatMap_changes,
    last?_ofScalars, Entries.last?_eq_get? (Shares.nodup_normalized (payload.nodup_shares names options usable)),
    Shares.get?_normalized]
  unfold cell share?
  have hscalars : (if name ∈ Entries.keys schema then
      (Entries.get? (payload.scalars (α := α) options.excludedKeys) name).filter fun value => value.type = type
      else none) = (payload.scalar? options name).filter fun value => value.type = type := by
    split
    · rfl
    · rename_i hk
      rw [Option.not_isSome_iff_eq_none.1 fun h => hk (hscalar h), Option.filter_none]
  rw [hscalars]
  cases hs : (payload.shares (α := α) names options usable).share? name with
  | some share => simp [hshare (Option.isSome_iff_exists.2 ⟨share, hs⟩)]
  | none =>
    have hscore : Entries.last? (Diagnostic.scores (α := α) names options (Diagnostic.accepted names options
        usable (payload.diagnostics options.segmentRule))) name = payload.score? names options usable name := rfl
    rw [hscore]
    cases type with
    | float64 => cases payload.score? (α := α) names options usable name <;> simp
    | string => simp
    | bool => simp

theorem last?_rowsChanges_of_lt {i : Nat} (hi : i < row) (payloads : List (Option Payload)) :
    last? name type i (rowsChanges (α := α) names options schema usable row payloads) = none := by
  induction payloads generalizing row with
  | nil => rfl
  | cons payload rest ih =>
    cases payload with
    | none => exact ih (by omega)
    | some payload =>
      have hown : last? name type i (payload.changes (α := α) names options schema usable row) = none :=
        last?_eq_none_of_forall fun change hc => value?_of_mem_changes hc (by omega)
      rw [rowsChanges, last?_append, ih (by omega), hown]
      rfl

/-- Only the payload of a row writes to the cells of the row. -/
theorem last?_rowsChanges {i j : Nat} (hj : j = row + i) (payloads : List (Option Payload)) :
    last? name type j (rowsChanges (α := α) names options schema usable row payloads) =
      payloads[i]?.join.elim none fun payload =>
        last? name type j (payload.changes names options schema usable j) := by
  subst hj
  -- the rows before and after write elsewhere
  induction payloads generalizing row i with
  | nil => rfl
  | cons payload rest ih =>
    cases i with
    | zero =>
      have hlater : last? name type row (rowsChanges (α := α) names options schema usable (row + 1) rest) =
          none := last?_rowsChanges_of_lt (by omega) rest
      cases payload with
      | none => exact hlater
      | some payload =>
        rw [Nat.add_zero, rowsChanges, last?_append, hlater]
        rfl
    | succ i =>
      have hrow : row + (i + 1) = row + 1 + i := by omega
      rw [hrow, List.getElem?_cons_succ]
      cases payload with
      | none => exact ih
      | some payload =>
        have hown : last? name type (row + 1 + i) (payload.changes (α := α) names options schema usable row) =
            none := last?_eq_none_of_forall fun change hc => value?_of_mem_changes hc (by omega)
        rw [rowsChanges, last?_append, ih, hown, Option.or_none]

theorem last?_columnChanges (inUse : List String) (payloads : List (Option Payload)) :
    last? name type row (columnChanges (α := α) names options inUse payloads) =
      payloads[row]?.join.elim none fun payload => last? name type row
        (payload.changes names options (Schema.discover α payloads options.excludedKeys)
          (Schema.isUsable inUse (Schema.occurrences α payloads options.excludedKeys)) row) := by
  have hrequire : ∀ schema : Schema,
      last? (α := α) name type row (schema.map fun (key, type) => .require key type) = none := fun schema =>
    last?_eq_none_of_forall fun change hc => by
      obtain ⟨field, -, rfl⟩ := List.mem_map.1 hc
      rfl
  rw [columnChanges, last?_append, hrequire, Option.or_none]
  exact last?_rowsChanges (Nat.zero_add row).symm payloads

end Payload

end Unnest
