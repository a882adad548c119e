import Unnest.Proofs.Change
import Unnest.Proofs.Flatten.Rows

/-!
# Filling derived columns as a list of changes

`Derived.ofPayloads` performs one list of changes, which the payloads, the name map, the options and the
names in use determine beforehand (`ofPayloads_eq_performAll`). What makes the list independent of the
columns that exist at the time is `Serves`: once the columns of the schema are there, a numeric column
can be had under a name exactly if the name is `Schema.isUsable`, and whatever a row adds later does not
change that.
-/

namespace Unnest
variable {α : Type}

namespace Diagnostic
variable (names : NameMap) (options : Options) (usable : String → Bool)

def anomalyChanges (row : Nat) (diagnostic : Diagnostic α) : List (Change α) :=
  match diagnostic.anomalyScore with
  | none => []
  | some score =>
    [.require (diagnostic.anomalyColumn names options) .float64,
      .write false (diagnostic.anomalyColumn names options) row (.float64 score)]

def changes (row : Nat) (diagnostic : Diagnostic α) : List (Change α) :=
  .require (diagnostic.contributionColumn names options) .float64 ::
    if usable (diagnostic.contributionColumn names options) then diagnostic.anomalyChanges names options row
    else []

@[simp] theorem requests_changes (row : Nat) (diagnostic : Diagnostic α) :
    Change.requests (diagnostic.changes names options usable row) = diagnostic.fields names options usable := by
  unfold changes fields anomalyChanges
  cases diagnostic.anomalyScore <;>
    cases usable (diagnostic.contributionColumn names options) <;> rfl

end Diagnostic

namespace Change

def ofScalars (schema : Schema) (row : Nat) (scalars : Entries String (Scalar α)) : List (Change α) :=
  (Entries.keys schema).filterMap fun key => (Entries.get? scalars key).map fun value =>
    .write true key row value

def ofShares (row : Nat) (shares : List (String × α)) : List (Change α) :=
  shares.map fun (column, share) => .write false column row (.float64 share)

@[simp] theorem requests_ofScalars (schema : Schema) (row : Nat) (scalars : Entries String (Scalar α)) :
    requests (ofScalars schema row scalars) = [] := by
  rw [requests, ofScalars, List.filterMap_filterMap]
  exact List.filterMap_eq_nil_iff.2 fun key _ => by cases Entries.get? scalars key <;> rfl

@[simp] theorem requests_ofShares (row : Nat) (shares : List (String × α)) :
    requests (ofShares row shares) = [] := by
  simp [requests, ofShares, field?]

@[simp] theorem requests_map_require (schema : Schema) :
    requests (α := α) (schema.map fun (key, type) => .require key type) = schema := by
  simp [requests, List.filterMap_map, Function.comp_def, field?]

end Change

namespace Payload
variable [Quantity α] (names : NameMap) (options : Options) (schema : Schema) (usable : String → Bool)

def changes (row : Nat) (payload : Payload) : List (Change α) :=
  Change.ofScalars schema row (payload.scalars options.excludedKeys) ++
    ((payload.diagnostics options.segmentRule).flatMap (Diagnostic.changes names options usable row) ++
      Change.ofShares row ((payload.shares names options usable).normalized.getD []))

/-- The changes that rows lead to, from a row on. -/
def rowsChanges : (row : Nat) → List (Option Payload) → List (Change α)
  | _, [] => []
  | row, none :: rest => rowsChanges (row + 1) rest
  | row, some payload :: rest =>
    payload.changes names options schema usable row ++ rowsChanges (row + 1) rest

/-- The changes that the rows of a text column lead to. -/
def columnChanges (inUse : List String) (payloads : List (Option Payload)) : List (Change α) :=
  let schema := Schema.discover α payloads options.excludedKeys
  (schema.map fun (key, type) => .require key type) ++
    rowsChanges names options schema
      (Schema.isUsable inUse (Schema.occurrences α payloads options.excludedKeys)) 0 payloads

@[simp] theorem requests_changes (row : Nat) (payload : Payload) :
    Change.requests (payload.changes (α := α) names options schema usable row) =
      payload.diagnosticFields α names options usable := by
  rw [changes, Change.requests_append, Change.requests_append, Change.requests_ofScalars,
    Change.requests_ofShares, List.nil_append, List.append_nil, diagnosticFields, Change.requests,
    List.filterMap_flatMap]
  exact List.flatMap_congr fun diagnostic _ => Diagnostic.requests_changes names options usable row diagnostic

theorem requests_rowsChanges (row : Nat) (payloads : List (Option Payload)) :
    Change.requests (rowsChanges (α := α) names options schema usable row payloads) =
      payloads.flatMap fun payload => payload.elim [] (diagnosticFields α names options usable) := by
  induction payloads generalizing row with
  | nil => rfl
  | cons payload rest ih =>
    cases payload with
    | none => exact ih (row + 1)
    | some payload => rw [rowsChanges, Change.requests_append, requests_changes, ih]; rfl

end Payload

namespace Derived
variable [Quantity α] {derived : Derived α} {names : NameMap} {options : Options} {schema : Schema}
  {usable : String → Bool} {row : Nat}

/-- A numeric column can be had exactly under the usable names. -/
def Serves (usable : String → Bool) (derived : Derived α) : Prop :=
  ∀ name, (derived.require name .float64).value.2 = usable name

theorem Serves.write (h : derived.Serves usable) (name : String) (value : Scalar α) :
    (derived.write name row value).Serves usable := by
  intro other
  rw [snd_require, fields_write, taken_write, ← snd_require]
  exact h other

theorem Serves.require (h : derived.Serves usable) (name : String) :
    (derived.require name .float64).value.1.Serves usable := by
  intro other
  rw [← h other, snd_require, snd_require, get?_fields, get?_fields, column?_require, taken_require]
  cases hc : derived.column? other with
  | some column => rw [Option.some_or]
  | none =>
    rw [Option.none_or]
    split
    · rename_i hn
      simp [hn]
    · rfl

theorem Serves.performAll {changes : List (Change α)} (h : derived.Serves usable)
    (hc : ∀ field ∈ Change.requests changes, field.2 = .float64) :
    (derived.performAll changes).value.Serves usable := by
  induction changes using List.reverseRecOn with
  | nil => exact h
  | append_singleton xs change ih =>
    rw [Change.requests_append] at hc
    have ih := ih fun field hf => hc field (List.mem_append_left _ hf)
    rw [value_performAll_append_singleton]
    cases change with
    | require name type =>
      have ht : type = .float64 := hc (name, type) (List.mem_append_right _ List.mem_cons_self)
      exact ht ▸ ih.require name
    | write b name r value =>
      rw [value_perform_write]
      exact ih.write name value

theorem requireFields_eq_performAll (schema : Schema) :
    derived.requireFields schema = derived.performAll (schema.map fun (key, type) => .require key type) := by
  rw [requireFields, performAll, List.foldlM_map]
  rfl

/-- The names under which a numeric column can be had once the columns of a schema are there. -/
theorem Serves.of_requireFields (h : derived.columns = []) {occurrences : List (String × ScalarType)} :
    (derived.requireFields (Entries.firsts occurrences)).value.Serves
      (Schema.isUsable derived.taken occurrences) := by
  have hf : derived.fields = [] := by rw [fields, h, List.map_nil]
  intro name
  rw [requireFields_eq_performAll, snd_require, fields_performAll (Inv.of_columns_eq_nil h),
    Change.requests_map_require, hf,
    List.nil_append, Entries.get?_firsts, Entries.get?_filter fun name => name ∉ derived.taken,
    Entries.get?_firsts, taken_performAll, Schema.isUsable]
  by_cases ht : name ∈ derived.taken
  · simp [ht]
  · cases Entries.get? occurrences name <;> simp [ht]

/-! ### One row -/

theorem fillScalars_eq_performAll (schema : Schema) (scalars : Entries String (Scalar α)) :
    derived.fillScalars schema row scalars = derived.performAll (Change.ofScalars schema row scalars) := by
  rw [fillScalars, performAll, Change.ofScalars, List.foldlM_filterMap]
  congr 1
  funext d key
  cases hv : Entries.get? scalars key with
  | none =>
    rw [fillScalar, hv]
    cases d.column? key <;> rfl
  | some value =>
    have hs : Entries.get? [(key, value)] key = some value := by simp [Entries.get?]
    show d.fillScalar row scalars key = d.fillScalar row [(key, value)] key
    rw [fillScalar, fillScalar, hv, hs]

/-- A score is left out where its column cannot be had, so the write may as well be tried. -/
theorem write_of_snd_require {name : String} {type : ScalarType} {value : Scalar α}
    (h : (derived.require name type).value.2 = false) (ht : value.type = type) :
    (derived.require name type).value.1.write name row value = (derived.require name type).value.1 := by
  refine write_eq_self fun column hcol => ?_
  rw [snd_require, get?_fields] at h
  rw [column?_require] at hcol
  cases hc : derived.column? name with
  | some before =>
    rw [hc, Option.map_some, Option.elim_some] at h
    rw [hc, Option.some_or, Option.some_inj] at hcol
    have hne : before.type ≠ type := of_decide_eq_false h
    exact Column.set?_eq_none_iff.2 fun hf => hne (hcol ▸ ht ▸ hf.1.symm)
  | none =>
    rw [hc, Option.map_none, Option.elim_none] at h
    have hfree : ¬ name ∉ derived.taken := of_decide_eq_false h
    rw [hc, Option.none_or, if_neg fun hn => hfree hn.2] at hcol
    cases hcol

theorem fillAnomaly_eq_performAll (diagnostic : Diagnostic α) :
    derived.fillAnomaly options (names.resolve diagnostic.propertyId) row diagnostic.anomalyScore =
      derived.performAll (diagnostic.anomalyChanges names options row) := by
  unfold Diagnostic.anomalyChanges fillAnomaly
  cases diagnostic.anomalyScore with
  | none => rfl
  | some score =>
    have hb : ∀ x : Logged (Derived α × Bool),
        (x.value.2 = false → x.value.1.write (diagnostic.anomalyColumn names options) row (.float64 score)
          = x.value.1) →
        (x >>= fun y => pure
          (if y.2 then y.1.write (diagnostic.anomalyColumn names options) row (.float64 score) else y.1)) =
        (x >>= fun y => (pure (y.1.write (diagnostic.anomalyColumn names options) row (.float64 score)) :
          Logged (Derived α))) := by
      intro x hx
      refine Traced.bind_congr ?_
      cases hu : x.value.2 with
      | false => simp [hx hu]
      | true => simp
    refine (hb _ fun hu => write_of_snd_require hu rfl).trans ?_
    simp only [performAll, perform, List.foldlM_cons, List.foldlM_nil, bind_assoc, pure_bind, bind_pure]
    rfl

/-- The entries that a list of contributions makes of those recorded before. -/
def recordAll (shares : Shares String α) (contributions : List (String × α)) : Shares String α :=
  contributions.foldl (fun shares (column, value) => shares.record column value) shares

theorem fillDiagnostic_eq_performAll (h : derived.Serves usable) (shares : Shares String α)
    (diagnostic : Diagnostic α) :
    fillDiagnostic names options row (derived, shares) diagnostic =
      derived.performAll (diagnostic.changes names options usable row) >>= fun derived => pure (derived,
        recordAll shares (Diagnostic.contributions names options
          (Diagnostic.accepted names options usable [diagnostic]))) := by
  have hu := h (diagnostic.contributionColumn names options)
  rw [Diagnostic.changes, performAll, List.foldlM_cons, bind_assoc, perform, bind_assoc]
  refine Traced.bind_congr ?_
  show (if (derived.require (diagnostic.contributionColumn names options) .float64).value.2 then _ else _) = _
  rw [hu, pure_bind]
  cases hus : usable (diagnostic.contributionColumn names options) with
  | false =>
    simp [Diagnostic.accepted, hus, Diagnostic.contributions, recordAll]
  | true =>
    rw [if_pos rfl, if_pos rfl, fillAnomaly_eq_performAll]
    cases hc : diagnostic.contribution with
    | none =>
      have hs : recordAll shares (Diagnostic.contributions names options
          (Diagnostic.accepted names options usable [diagnostic])) = shares := by
        simp [Diagnostic.accepted, hus, Diagnostic.contributions, recordAll, hc]
      rw [hs]
      rfl
    | some value =>
      have hs : recordAll shares (Diagnostic.contributions names options
          (Diagnostic.accepted names options usable [diagnostic])) =
            shares.record (diagnostic.contributionColumn names options) value := by
        simp [Diagnostic.accepted, hus, Diagnostic.contributions, recordAll, hc]
      rw [hs]
      rfl

theorem foldlM_fillDiagnostic (h : derived.Serves usable) (shares : Shares String α)
    (diagnostics : List (Diagnostic α)) :
    diagnostics.foldlM (fillDiagnostic names options row) (derived, shares) =
      derived.performAll (diagnostics.flatMap (Diagnostic.changes names options usable row)) >>= fun derived =>
        pure (derived, recordAll shares (Diagnostic.contributions names options
          (Diagnostic.accepted names options usable diagnostics))) := by
  induction diagnostics generalizing derived shares with
  | nil => rfl
  | cons diagnostic rest ih =>
    rw [List.foldlM_cons, fillDiagnostic_eq_performAll h, bind_assoc, List.flatMap_cons, performAll_append,
      bind_assoc]
    refine Traced.bind_congr ?_
    rw [pure_bind, ih (h.performAll fun field hf =>
      Diagnostic.type_of_mem_fields (Diagnostic.requests_changes names options usable row diagnostic ▸ hf))]
    have hr : recordAll (recordAll shares (Diagnostic.contributions names options
        (Diagnostic.accepted names options usable [diagnostic]))) (Diagnostic.contributions names options
          (Diagnostic.accepted names options usable rest)) =
        recordAll shares (Diagnostic.contributions names options
          (Diagnostic.accepted names options usable (diagnostic :: rest))) := by
      rw [recordAll, recordAll, ← List.foldl_append, Diagnostic.contributions, Diagnostic.contributions,
        ← List.filterMap_append, Diagnostic.accepted, Diagnostic.accepted, ← List.filter_append]
      rfl
    rw [hr]

omit [Quantity α] in
theorem recordAll_empty (contributions : List (String × α)) :
    recordAll {} contributions = ⟨Entries.latest contributions⟩ := by
  have h : ∀ shares : Shares String α, recordAll shares contributions =
      ⟨contributions.foldl (fun known entry => Entries.put known entry.1 entry.2) shares.recorded⟩ := by
    induction contributions with
    | nil => exact fun _ => rfl
    | cons entry rest ih => exact fun shares => ih _
  rw [h, ← Entries.ofList_eq_latest]
  rfl

theorem fillShares_eq_performAll (shares : List (String × α)) :
    pure (derived.fillShares row shares) = derived.performAll (Change.ofShares row shares) := by
  induction shares generalizing derived with
  | nil => rfl
  | cons share rest ih => exact ih

theorem fillRow_eq_performAll (h : derived.Serves usable) (payload : Payload) :
    fillRow names options schema derived row payload =
      derived.performAll (payload.changes names options schema usable row) := by
  rw [Payload.changes, performAll_append, ← fillScalars_eq_performAll]
  refine Traced.bind_congr ?_
  -- writing scalars asks for no columns, so the usable names stay the same
  have hs : (derived.fillScalars schema row (payload.scalars options.excludedKeys)).value.Serves usable := by
    rw [fillScalars_eq_performAll]
    refine h.performAll fun field hf => ?_
    rw [Change.requests_ofScalars] at hf
    exact absurd hf List.not_mem_nil
  rw [fillDiagnostics, foldlM_fillDiagnostic hs, bind_assoc, performAll_append]
  refine Traced.bind_congr ?_
  rw [pure_bind, ← fillShares_eq_performAll, recordAll_empty]
  rfl

/-! ### All rows -/

theorem fillRows_eq_performAll (h : derived.Serves usable) (payloads : List (Option Payload)) :
    fillRows names options schema derived row payloads =
      derived.performAll (Payload.rowsChanges names options schema usable row payloads) := by
  induction payloads generalizing derived row with
  | nil => rfl
  | cons payload rest ih =>
    cases payload with
    | none => exact ih h
    | some payload =>
      rw [fillRows, fillRow_eq_performAll h, Payload.rowsChanges, performAll_append]
      refine Traced.bind_congr (ih (h.performAll fun field hf => ?_))
      rw [Payload.requests_changes] at hf
      obtain ⟨diagnostic, -, hf⟩ := List.mem_flatMap.1 hf
      exact Diagnostic.type_of_mem_fields hf

theorem ofPayloads_eq_performAll (h : derived.columns = []) (payloads : List (Option Payload)) :
    derived.ofPayloads names options payloads =
      Derived.columns <$> derived.performAll (Payload.columnChanges names options derived.taken payloads) := by
  rw [ofPayloads, Payload.columnChanges, performAll_append, map_bind, ← requireFields_eq_performAll]
  refine Traced.bind_congr ?_
  rw [fillRows_eq_performAll (Schema.discover_eq_firsts (α := α) payloads _ ▸ Serves.of_requireFields h)]
  rfl

end Derived

end Unnest
