import Unnest.Proofs.Flatten.Reordering
import Unnest.Proofs.Flatten.Reports

/-!
# What becomes of scalars

No scalar is lost without a trace. It is kept in the column of its key, or its key is in use and refused, or
the column is of another type and the value dropped, or a diagnostic of the same row overwrites it; these are
the `Fate`s, and every scalar of a frame meets exactly one of them (`Frame.accounting`). Dropped values are
reported for these conflicts only, and once each: a payload has a key once, a column has a row once, and no two
text columns have derived columns of one name.
-/

namespace Unnest
variable {α : Type}

namespace Change

theorem drop?_write_eq_some_iff {rows row : Nat} {type? : String → Option ScalarType} {name : String}
    {value : Scalar α} {event : Event} : (write true name row value).drop? rows type? = some event ↔
      event = .valueDropped name row ∧ ∃ type, type? name = some type ∧ (type ≠ value.type ∨ rows ≤ row) := by
  have hany : ((type? name).any fun type => type ≠ value.type ∨ rows ≤ row) ↔
      ∃ type, type? name = some type ∧ (type ≠ value.type ∨ rows ≤ row) := by
    simp only [Option.any_eq_true, decide_eq_true_iff]
  rw [drop?, ← hany]
  split
  · rename_i h
    exact ⟨fun he => ⟨(Option.some_inj.1 he).symm, h⟩, fun he => congrArg some he.1.symm⟩
  · rename_i h
    exact ⟨fun he => (Option.some_ne_none event he.symm).elim, fun he => absurd he.2 h⟩

end Change

namespace Payload
variable [Quantity α] {names : NameMap} {options : Options} {usable : String → Bool} {schema : Schema}
  {rows row : Nat} {type? : String → Option ScalarType} {payload : Payload} {name : String}

variable (α) in
/-- Whether a diagnostic of a payload writes to the column with a name: a share, if the contributions of the
payload have a positive total, or an anomaly score. Both columns have to be such that can be had. -/
def Diagnoses (names : NameMap) (options : Options) (usable : String → Bool) (payload : Payload)
    (name : String) : Prop :=
  ∃ diagnostic ∈ payload.diagnostics (α := α) options.segmentRule,
    usable (diagnostic.contributionColumn names options) ∧ usable name ∧
      (diagnostic.contributionColumn names options = name ∧ diagnostic.contribution.isSome ∧
          (payload.shares (α := α) names options usable).normalized.isSome ∨
        diagnostic.anomalyColumn names options = name ∧ diagnostic.anomalyScore.isSome)

theorem share?_isSome_iff : (payload.share? (α := α) names options usable name).isSome ↔
    (payload.shares (α := α) names options usable).normalized.isSome ∧
      ∃ diagnostic ∈ payload.diagnostics (α := α) options.segmentRule,
        usable (diagnostic.contributionColumn names options) ∧
          diagnostic.contributionColumn names options = name ∧ diagnostic.contribution.isSome := by
  rw [← Diagnostic.mem_keys_accepted (Diagnostic.contributionColumn names options) Diagnostic.contribution,
    share?, Shares.share?, Shares.normalized]
  split
  · simp
  · rw [Option.isSome_map, Entries.get?_isSome_iff, shares, Entries.keys_latest, List.mem_eraseDups]
    exact (and_iff_right rfl).symm

theorem score?_isSome_iff : (payload.score? (α := α) names options usable name).isSome ↔
    ∃ diagnostic ∈ payload.diagnostics (α := α) options.segmentRule,
      usable (diagnostic.contributionColumn names options) ∧
        diagnostic.anomalyColumn names options = name ∧ diagnostic.anomalyScore.isSome := by
  rw [score?, Entries.last?_isSome_iff]
  exact Diagnostic.mem_keys_accepted (Diagnostic.anomalyColumn names options) Diagnostic.anomalyScore

theorem diagnoses_iff : payload.Diagnoses α names options usable name ↔
    usable name ∧ ((payload.share? (α := α) names options usable name).isSome ∨
      (payload.score? (α := α) names options usable name).isSome) := by
  rw [share?_isSome_iff, score?_isSome_iff]
  constructor
  · rintro ⟨diagnostic, hd, hu, hn, ⟨hc, hv, ht⟩ | ⟨ha, hs⟩⟩
    · exact ⟨hn, .inl ⟨ht, diagnostic, hd, hu, hc, hv⟩⟩
    · exact ⟨hn, .inr ⟨diagnostic, hd, hu, ha, hs⟩⟩
  · rintro ⟨hn, ⟨ht, diagnostic, hd, hu, hc, hv⟩ | ⟨diagnostic, hd, hu, ha, hs⟩⟩
    · exact ⟨diagnostic, hd, hu, hn, .inl ⟨hc, hv, ht⟩⟩
    · exact ⟨diagnostic, hd, hu, hn, .inr ⟨ha, hs⟩⟩

/-- Where no diagnostic writes, a scalar of the column's type stays. -/
theorem cell_of_not_diagnoses {type : ScalarType} (htype : type = .float64 → usable name)
    (h : ¬ payload.Diagnoses α names options usable name) : payload.cell (α := α) names options usable name type =
      ((payload.scalar? options name).filter fun value => value.type = type).getD (Scalar.zero type) := by
  rw [diagnoses_iff, not_and, not_or] at h
  have hshare : payload.share? (α := α) names options usable name = none := by
    rw [← Option.not_isSome_iff_eq_none]
    intro hs
    obtain ⟨-, -, hu, -⟩ := exists_of_share? hs
    exact (h hu).1 hs
  cases type with
  | float64 => simp [cell, hshare, Option.not_isSome_iff_eq_none.1 (h (htype rfl)).2]
  | string => simp [cell, hshare]
  | bool => simp [cell, hshare]

/-- No key of a payload that was read has two scalars. -/
theorem scalar?_of_mem {raw : String} (hp : ofText? raw = some payload) {value : Scalar α}
    (h : (name, value) ∈ payload.scalars options.excludedKeys) : payload.scalar? options name = some value := by
  have hkeys : (Entries.keys (payload.scalars (α := α) options.excludedKeys)).Sublist
      (Entries.keys payload.members) := by
    unfold scalars
    induction payload.members with
    | nil => exact .slnil
    | cons member rest ih =>
      by_cases hm : isPromoted options.excludedKeys member.1
      · cases hv : Scalar.ofJson? (α := α) member.2 with
        | none => simpa [hm, hv] using ih.cons member.1
        | some value => simpa [hm, hv] using ih
      · simpa [hm] using ih.cons member.1
  exact (Entries.mem_iff_get? ((nodup_of_ofText? hp).sublist hkeys)).1 h

/-! ### Dropped values -/

variable (α) in
/-- The events that the scalars of a payload lead to if columns have `rows` rows and the types that `type?`
gives. -/
def drops (options : Options) (schema : Schema) (rows : Nat) (type? : String → Option ScalarType) (row : Nat)
    (payload : Payload) : List Event :=
  (Entries.keys schema).filterMap fun key => (payload.scalar? (α := α) options key).bind fun value =>
    (Change.write true key row value).drop? rows type?

theorem mem_drops {event : Event} : event ∈ payload.drops α options schema rows type? row ↔
    ∃ key ∈ Entries.keys schema, event = .valueDropped key row ∧
      ∃ value, payload.scalar? (α := α) options key = some value ∧
        ∃ type, type? key = some type ∧ (type ≠ value.type ∨ rows ≤ row) := by
  simp only [drops, List.mem_filterMap, Option.bind_eq_some_iff, Change.drop?_write_eq_some_iff]
  constructor
  · rintro ⟨key, hk, value, hv, rfl, hdrop⟩
    exact ⟨key, hk, rfl, value, hv, hdrop⟩
  · rintro ⟨key, hk, rfl, value, hv, hdrop⟩
    exact ⟨key, hk, value, hv, rfl, hdrop⟩

theorem nodup_drops (h : (Entries.keys schema).Nodup) :
    (payload.drops α options schema rows type? row).Nodup := by
  refine h.filterMap fun key key' event he he' => ?_
  obtain ⟨value, -, he⟩ := Option.bind_eq_some_iff.1 he
  obtain ⟨value', -, he'⟩ := Option.bind_eq_some_iff.1 he'
  have heq := (Change.drop?_write_eq_some_iff.1 he).1.symm.trans (Change.drop?_write_eq_some_iff.1 he').1
  exact (Event.valueDropped.inj heq).1

/-- Only scalars are reported. -/
theorem drops_changes : (payload.changes (α := α) names options schema usable row).filterMap
    (Change.drop? rows type?) = payload.drops α options schema rows type? row := by
  have hquiet : ((payload.diagnostics (α := α) options.segmentRule).flatMap
      (Diagnostic.changes names options usable row) ++
        Change.ofShares row ((payload.shares names options usable).normalized.getD [])).filterMap
          (Change.drop? rows type?) = [] := by
    refine List.filterMap_eq_nil_iff.2 fun change h => ?_
    rcases List.mem_append.1 h with h | h
    · obtain ⟨diagnostic, -, h⟩ := List.mem_flatMap.1 h
      unfold Diagnostic.changes Diagnostic.anomalyChanges at h
      rcases List.mem_cons.1 h with rfl | h
      · rfl
      · split at h
        · split at h
          · cases h
          · rcases List.mem_pair.1 h with rfl | rfl <;> rfl
        · cases h
    · obtain ⟨share, -, rfl⟩ := Change.mem_ofShares h
      rfl
  rw [changes, List.filterMap_append, hquiet, List.append_nil, Change.ofScalars, List.filterMap_filterMap]
  exact List.filterMap_congr fun key _ => Option.bind_map

theorem mem_drops_rowsChanges {payloads : List (Option Payload)} {event : Event} :
    event ∈ (rowsChanges (α := α) names options schema usable row payloads).filterMap
        (Change.drop? rows type?) ↔
      ∃ i, ∃ payload : Payload, payloads[i]? = some (some payload) ∧
        event ∈ payload.drops α options schema rows type? (row + i) := by
  induction payloads generalizing row with
  | nil => simp [rowsChanges]
  | cons payload rest ih =>
    have hrow : ∀ i, row + (i + 1) = row + 1 + i := fun i => by omega
    have hsplit : event ∈ (rowsChanges (α := α) names options schema usable row (payload :: rest)).filterMap
        (Change.drop? rows type?) ↔
          (∃ first, payload = some first ∧ event ∈ first.drops α options schema rows type? row) ∨
            event ∈ (rowsChanges (α := α) names options schema usable (row + 1) rest).filterMap
              (Change.drop? rows type?) := by
      cases payload with
      | none => simp [rowsChanges]
      | some payload => simp only [rowsChanges, List.filterMap_append, drops_changes, List.mem_append]; simp
    rw [hsplit, ih]
    constructor
    · rintro (⟨first, rfl, he⟩ | ⟨i, later, hi, he⟩)
      · exact ⟨0, first, rfl, he⟩
      · exact ⟨i + 1, later, hi, hrow i ▸ he⟩
    · rintro ⟨i, found, hi, he⟩
      cases i with
      | zero => exact .inl ⟨found, Option.some_inj.1 hi, he⟩
      | succ i => exact .inr ⟨i, found, hi, hrow i ▸ he⟩

theorem nodup_drops_rowsChanges (h : (Entries.keys schema).Nodup) (payloads : List (Option Payload)) :
    ((rowsChanges (α := α) names options schema usable row payloads).filterMap
      (Change.drop? rows type?)).Nodup := by
  induction payloads generalizing row with
  | nil => exact List.nodup_nil
  | cons payload rest ih =>
    cases payload with
    | none => exact ih
    | some payload =>
      rw [rowsChanges, List.filterMap_append, drops_changes]
      refine List.nodup_append.2 ⟨nodup_drops h, ih, fun event he other ho heq => ?_⟩
      -- the rest of the rows are later
      obtain ⟨i, later, -, ho⟩ := mem_drops_rowsChanges.1 ho
      obtain ⟨key, -, rfl, -⟩ := mem_drops.1 he
      obtain ⟨other, -, rfl, -⟩ := mem_drops.1 ho
      have hrow : row = row + 1 + i := (Event.valueDropped.inj heq).2
      omega

end Payload

theorem Column.type_of_get? {column : Column α} {row : Nat} {value : Scalar α}
    (h : column.get? row = some value) : column.type = value.type := by
  obtain ⟨name, cells⟩ := column
  cases cells <;> obtain ⟨x, -, rfl⟩ := Option.map_eq_some_iff.1 h <;> rfl

namespace Frame

/-- A scalar of a payload in a row of a text column. -/
structure Occurrence (α : Type) where
  position : Nat
  source : Column α
  cells : List String
  row : Nat
  payload : Payload
  key : String
  value : Scalar α

/-- What becomes of a scalar. -/
inductive Fate where
  /-- Its cell holds it. -/
  | kept
  /-- Its key is in use; this is reported once for the text column. -/
  | refused
  /-- The column of its key has another type; this is reported. -/
  | conflicting
  /-- A diagnostic of the same row writes to its cell. -/
  | overwritten

variable [Quantity α] {frame : Frame α} {names : NameMap} {options : Options}

namespace Occurrence

/-- The scalar stands in the frame, under a key that is not excluded. -/
structure In (scalar : Occurrence α) (frame : Frame α) (options : Options) : Prop where
  source : frame.columns[scalar.position]? = some scalar.source
  cells : scalar.source.strings? = some scalar.cells
  payload : scalar.cells[scalar.row]?.bind Payload.ofText? = some scalar.payload
  value : (scalar.key, scalar.value) ∈ scalar.payload.scalars options.excludedKeys

/-- Whether a diagnostic of the same payload writes to the cell of a scalar. -/
def IsDiagnosed (scalar : Occurrence α) (frame : Frame α) (names : NameMap) (options : Options) : Prop :=
  scalar.payload.Diagnoses α names options (frame.isUsable names options scalar.position scalar.cells) scalar.key

/-- What has to be there once flattening is done if a scalar has met a fate. -/
def Meets (scalar : Occurrence α) (frame : Frame α) (names : NameMap) (options : Options) : Fate → Prop
  | .kept => ∃ column ∈ frame.addedAt names options scalar.position, column.name = scalar.key ∧
      column.get? scalar.row = some scalar.value ∧ ¬ scalar.IsDiagnosed frame names options
  | .refused => scalar.key ∈ frame.inUse names options scalar.position ∧
      .nameInUse frame.name scalar.source.name scalar.key ∈ (frame.flatten names options).events
  | .conflicting => ∃ column ∈ frame.addedAt names options scalar.position, column.name = scalar.key ∧
      column.type ≠ scalar.value.type ∧
        .valueDropped scalar.key scalar.row ∈ (frame.flatten names options).events
  | .overwritten => ∃ column ∈ frame.addedAt names options scalar.position, column.name = scalar.key ∧
      column.type = scalar.value.type ∧ scalar.IsDiagnosed frame names options

end Occurrence

section
variable {position row : Nat} {source column column' : Column α} {cells : List String} {key : String}
  (hs : frame.columns[position]? = some source) (hc : source.strings? = some cells)
include hs hc

theorem eq_of_mem_addedAt (h : column ∈ frame.addedAt names options position)
    (h' : column' ∈ frame.addedAt names options position) (hn : column.name = column'.name) :
    column = column' :=
  List.inj_on_of_nodup_map (nodup_addedAt hs hc) h h' hn

theorem not_mem_inUse_of_mem_addedAt (h : column ∈ frame.addedAt names options position) :
    column.name ∉ frame.inUse names options position :=
  ((mem_names_addedAt hs hc).1 (List.mem_map_of_mem h)).2

theorem get?_fields_derivedAt {type : ScalarType} :
    Entries.get? (frame.derivedAt names options position source cells).fields key = some type ↔
      ∃ column ∈ frame.addedAt names options position, column.name = key ∧ column.type = type := by
  rw [addedAt_eq hs hc, Derived.get?_fields, Option.map_eq_some_iff]
  constructor
  · rintro ⟨column, hcol, rfl⟩
    exact ⟨column, Derived.mem_of_column? hcol, Derived.name_of_column? hcol, rfl⟩
  · rintro ⟨column, hcol, rfl, rfl⟩
    exact ⟨column, Derived.column?_of_mem (inv_derivedAt position source cells).nodup hcol, rfl⟩

/-- A numeric column has a name that is usable. -/
theorem isUsable_of_mem_addedAt (h : column ∈ frame.addedAt names options position)
    (ht : column.type = .float64) : frame.isUsable names options position cells column.name := by
  have htype := (get?_fields_derivedAt hs hc).2 ⟨column, h, rfl, ht⟩
  rw [fields_derivedAt hc, Column.newFields, hc, Entries.get?_firsts,
    Entries.get?_filter fun name => name ∉ frame.inUse names options position,
    if_pos (decide_eq_true (not_mem_inUse_of_mem_addedAt hs hc h)), Payload.candidates,
    Entries.get?_append] at htype
  rw [isUsable, Schema.isUsable, decide_eq_true (not_mem_inUse_of_mem_addedAt hs hc h), Bool.true_and,
    Option.all_eq_true]
  intro type hfirst
  rw [hfirst, Option.some_or, Option.some_inj] at htype
  exact decide_eq_true htype

theorem filter_isDrop_reportsAt : (frame.reportsAt names options position).filter Event.isDrop =
    (Payload.rowsChanges (α := α) names options (Schema.discover α (cells.map Payload.ofText?)
      options.excludedKeys) (frame.isUsable names options position cells) 0
        (cells.map Payload.ofText?)).filterMap (Change.drop? frame.rowCount fun key =>
          Entries.get? (frame.derivedAt names options position source cells).fields key) := by
  have hreading : (Payload.ofCells frame.name source.name options.expectedKeys 0 cells).events.filter
      Event.isDrop = [] :=
    List.filter_eq_nil_iff.2 fun event he => by simp [(Payload.not_refusal_ofCells he).2]
  rw [reportsAt_eq hs hc, List.filter_append, hreading, List.nil_append,
    Derived.drops_performAll rfl (Payload.covered_columnChanges _ _), Payload.columnChanges,
    List.filterMap_append]
  refine (congrArg (· ++ _) (List.filterMap_eq_nil_iff.2 fun change hm => ?_)).trans (List.nil_append _)
  obtain ⟨field, -, rfl⟩ := List.mem_map.1 hm
  rfl

theorem mem_drops_reportsAt (hv : frame.validate = .ok ()) :
    .valueDropped key row ∈ frame.reportsAt names options position ↔
      ∃ payload, cells[row]?.bind Payload.ofText? = some payload ∧
        ∃ value, payload.scalar? (α := α) options key = some value ∧
          ∃ column ∈ frame.addedAt names options position, column.name = key ∧ column.type ≠ value.type := by
  have hfilter : .valueDropped key row ∈ frame.reportsAt names options position ↔
      .valueDropped key row ∈ (frame.reportsAt names options position).filter Event.isDrop := by
    rw [List.mem_filter]
    exact ⟨fun h => ⟨h, rfl⟩, And.left⟩
  have hrow : ∀ payload, (cells.map Payload.ofText?)[row]? = some (some payload) ↔
      cells[row]?.bind Payload.ofText? = some payload := fun payload => by
    rw [List.getElem?_map]
    cases cells[row]? <;> simp
  rw [hfilter, filter_isDrop_reportsAt hs hc, Payload.mem_drops_rowsChanges]
  constructor
  · rintro ⟨i, payload, hi, hdrop⟩
    obtain ⟨key', -, he, value, hvalue, type, htype, hne⟩ := Payload.mem_drops.1 hdrop
    obtain ⟨rfl, rfl⟩ := Event.valueDropped.inj he
    rw [Nat.zero_add] at hne hrow ⊢
    rw [hrow] at hi
    obtain ⟨column, hcol, hname, rfl⟩ := (get?_fields_derivedAt hs hc).1 htype
    obtain ⟨raw, hraw, -⟩ := Option.bind_eq_some_iff.1 hi
    exact ⟨payload, hi, value, hvalue, column, hcol, hname,
      hne.resolve_right (Nat.not_le.2 (lt_rowCount hv hs hc hraw))⟩
  · rintro ⟨payload, hp, value, hvalue, column, hcol, hname, hne⟩
    refine ⟨row, payload, (hrow payload).2 hp, Payload.mem_drops.2 ⟨key, ?_, by rw [Nat.zero_add], value, hvalue,
      column.type, (get?_fields_derivedAt hs hc).2 ⟨column, hcol, hname, rfl⟩, .inl hne⟩⟩
    exact Payload.mem_discover_of_scalar? (List.mem_of_getElem? ((hrow payload).2 hp)) (by rw [hvalue]; rfl)

end

section
variable {position row : Nat} {key : String}

theorem mem_events_flatten {event : Event} (hp : position < frame.columns.length)
    (h : event ∈ frame.reportsAt names options position) : event ∈ (frame.flatten names options).events := by
  rw [events_flatten]
  exact List.mem_append_left _ (List.mem_flatMap.2 ⟨position, List.mem_range.2 hp, h⟩)

theorem exists_of_mem_reportsAt {event : Event} (h : event ∈ frame.reportsAt names options position) :
    ∃ source cells, frame.columns[position]? = some source ∧ source.strings? = some cells := by
  cases hb : frame.columns[position]?.bind Column.strings? with
  | none =>
    rw [reportsAt_eq_nil hb] at h
    cases h
  | some cells =>
    obtain ⟨source, hs, hc⟩ := Option.bind_eq_some_iff.1 hb
    exact ⟨source, cells, hs, hc⟩

theorem mem_inUse_of_lt {later : Nat} {column : Column α} (hlt : position < later)
    (h : column ∈ frame.addedAt names options position) : column.name ∈ frame.inUse names options later := by
  refine List.mem_append_right _ (List.mem_map_of_mem ?_)
  rw [addedBefore_eq_flatMap]
  exact List.mem_flatMap.2 ⟨position, List.mem_range.2 hlt, h⟩

/-- A dropped value belongs to a column of its key and of another type, and the text column that it comes from is
the one that the column was derived from. -/
theorem exists_of_mem_drops_reportsAt (hv : frame.validate = .ok ()) {event : Event}
    (h : event ∈ (frame.reportsAt names options position).filter Event.isDrop) :
    ∃ scalar : Occurrence α, scalar.In frame options ∧ scalar.position = position ∧
      event = .valueDropped scalar.key scalar.row ∧
      ∃ column ∈ frame.addedAt names options position, column.name = scalar.key ∧
        column.type ≠ scalar.value.type := by
  obtain ⟨h, hdrop⟩ := List.mem_filter.1 h
  obtain ⟨source, cells, hs, hc⟩ := exists_of_mem_reportsAt h
  cases event with
  | valueDropped key row =>
    obtain ⟨payload, hp, value, hvalue, column⟩ := (mem_drops_reportsAt hs hc hv).1 h
    exact ⟨⟨position, source, cells, row, payload, key, value⟩, ⟨hs, hc, hp, Entries.mem_of_get? hvalue⟩, rfl, rfl,
      column⟩
  | _ => cases hdrop

/-- Every dropped value is reported once. -/
theorem nodup_drops_flatten (hv : frame.validate = .ok ()) :
    ((frame.flatten names options).events.filter Event.isDrop).Nodup := by
  rw [filter_events_flatten frame names options fun _ _ => rfl, List.nodup_flatMap]
  constructor
  · intro position _
    cases hb : frame.columns[position]?.bind Column.strings? with
    | none =>
      rw [reportsAt_eq_nil hb]
      exact List.nodup_nil
    | some cells =>
      obtain ⟨source, hs, hc⟩ := Option.bind_eq_some_iff.1 hb
      rw [filter_isDrop_reportsAt hs hc]
      exact Payload.nodup_drops_rowsChanges (Schema.nodup_discover (α := α) _ _) _
  · refine List.pairwise_lt_range.imp fun {position later} hlt event he he' => ?_
    obtain ⟨scalar, -, -, rfl, column, hcol, hname, -⟩ := exists_of_mem_drops_reportsAt hv he
    obtain ⟨scalar', hin, rfl, heq, column', hcol', hname', -⟩ := exists_of_mem_drops_reportsAt hv he'
    -- the column derived earlier takes the name away from the later one
    have hkey : column.name = column'.name := by rw [hname, hname', (Event.valueDropped.inj heq).1]
    exact not_mem_inUse_of_mem_addedAt hin.source hin.cells hcol' (hkey ▸ mem_inUse_of_lt hlt hcol)

end

namespace Occurrence
variable {scalar : Occurrence α} (hin : scalar.In frame options)
include hin

theorem In.scalar? : scalar.payload.scalar? options scalar.key = some scalar.value := by
  obtain ⟨raw, -, hp⟩ := Option.bind_eq_some_iff.1 hin.payload
  exact Payload.scalar?_of_mem hp hin.value

theorem In.lt_length : scalar.position < frame.columns.length := (List.getElem?_eq_some_iff.1 hin.source).1

theorem In.mem_payloads : some scalar.payload ∈ scalar.cells.map Payload.ofText? := by
  obtain ⟨raw, hraw, hp⟩ := Option.bind_eq_some_iff.1 hin.payload
  exact Payload.mem_map_ofText? hraw hp

theorem In.mem_candidates : scalar.key ∈ Entries.keys (Payload.candidates α names options
    (frame.inUse names options scalar.position) (scalar.cells.map Payload.ofText?)) :=
  Payload.mem_keys_candidates.2 (.inl (Payload.mem_occurrences_of_scalar? hin.mem_payloads
    (by rw [hin.scalar?]; rfl)))

/-- A key in use is refused, and its text column derives no column under it. -/
theorem In.refused (h : scalar.key ∈ frame.inUse names options scalar.position) :
    scalar.Meets frame names options .refused ∧
      ∀ column ∈ frame.addedAt names options scalar.position, column.name ≠ scalar.key := by
  refine ⟨⟨h, mem_events_flatten hin.lt_length (List.mem_of_mem_filter (p := Event.isRefusal) ?_)⟩,
    fun column hcol hname => not_mem_inUse_of_mem_addedAt hin.source hin.cells hcol (hname ▸ h)⟩
  rw [filter_isRefusal_reportsAt hin.source hin.cells]
  exact List.mem_map_of_mem (List.mem_eraseDups.2
    (List.mem_filter.2 ⟨hin.mem_candidates, decide_eq_true h⟩))

theorem In.exists_column (h : scalar.key ∉ frame.inUse names options scalar.position) :
    ∃ column ∈ frame.addedAt names options scalar.position, column.name = scalar.key :=
  List.mem_map.1 ((mem_names_addedAt hin.source hin.cells).2 ⟨hin.mem_candidates, h⟩)

theorem In.conflicting (hv : frame.validate = .ok ()) {column : Column α}
    (h : column ∈ frame.addedAt names options scalar.position) (hname : column.name = scalar.key)
    (htype : column.type ≠ scalar.value.type) : scalar.Meets frame names options .conflicting :=
  ⟨column, h, hname, htype, mem_events_flatten hin.lt_length ((mem_drops_reportsAt hin.source hin.cells hv).2
    ⟨scalar.payload, hin.payload, scalar.value, hin.scalar?, column, h, hname, htype⟩)⟩

theorem In.kept (hv : frame.validate = .ok ()) {column : Column α}
    (h : column ∈ frame.addedAt names options scalar.position) (hname : column.name = scalar.key)
    (htype : column.type = scalar.value.type) (hd : ¬ scalar.IsDiagnosed frame names options) :
    scalar.Meets frame names options .kept := by
  refine ⟨column, h, hname, ?_, hd⟩
  obtain ⟨raw, hraw, -⟩ := Option.bind_eq_some_iff.1 hin.payload
  have husable : column.type = .float64 →
      frame.isUsable names options scalar.position scalar.cells scalar.key := fun ht =>
    hname ▸ isUsable_of_mem_addedAt hin.source hin.cells h ht
  rw [get?_addedAt hin.source hin.cells h (lt_rowCount hv hin.source hin.cells hraw), hin.payload]
  dsimp only
  rw [hname, Payload.cell_of_not_diagnoses husable hd, hin.scalar?]
  simp [htype, Option.filter]

/-- Every scalar meets exactly one fate. -/
theorem In.existsUnique_fate (hv : frame.validate = .ok ()) :
    ∃! fate, scalar.Meets frame names options fate := by
  by_cases hfree : scalar.key ∈ frame.inUse names options scalar.position
  · obtain ⟨hrefused, hno⟩ := hin.refused hfree
    refine ⟨.refused, hrefused, fun fate hf => ?_⟩
    cases fate with
    | refused => rfl
    | kept | conflicting | overwritten =>
      obtain ⟨column, hcol, hname, -⟩ := hf
      exact absurd hname (hno column hcol)
  · obtain ⟨column, hcol, hname⟩ := hin.exists_column hfree
    -- there is one column of the key, so its type and what diagnostics write settle the fate
    have honly : ∀ other ∈ frame.addedAt names options scalar.position, other.name = scalar.key →
        other = column := fun other ho hn => eq_of_mem_addedAt hin.source hin.cells ho hcol (hn.trans hname.symm)
    by_cases htype : column.type = scalar.value.type
    · by_cases hd : scalar.IsDiagnosed frame names options
      · refine ⟨.overwritten, ⟨column, hcol, hname, htype, hd⟩, fun fate hf => ?_⟩
        cases fate with
        | overwritten => rfl
        | refused => exact absurd hf.1 hfree
        | kept =>
          obtain ⟨-, -, -, -, hn⟩ := hf
          exact absurd hd hn
        | conflicting =>
          obtain ⟨other, ho, hn, ht, -⟩ := hf
          exact absurd (honly other ho hn ▸ htype) ht
      · refine ⟨.kept, hin.kept hv hcol hname htype hd, fun fate hf => ?_⟩
        cases fate with
        | kept => rfl
        | refused => exact absurd hf.1 hfree
        | overwritten =>
          obtain ⟨-, -, -, -, h⟩ := hf
          exact absurd h hd
        | conflicting =>
          obtain ⟨other, ho, hn, ht, -⟩ := hf
          exact absurd (honly other ho hn ▸ htype) ht
    · refine ⟨.conflicting, hin.conflicting hv hcol hname htype, fun fate hf => ?_⟩
      cases fate with
      | conflicting => rfl
      | refused => exact absurd hf.1 hfree
      | kept =>
        obtain ⟨other, ho, hn, hget, -⟩ := hf
        exact absurd (honly other ho hn ▸ Column.type_of_get? hget) htype
      | overwritten =>
        obtain ⟨other, ho, hn, ht, -⟩ := hf
        exact absurd (honly other ho hn ▸ ht) htype

end Occurrence

/-- Every scalar of a frame meets exactly one fate. Dropped values are reported for conflicts only, once each. -/
theorem accounting (frame : Frame α) (names : NameMap) (options : Options) (hv : frame.validate = .ok ()) :
    (frame.flatten names options).value.columns = frame.columns ++
        (List.range frame.columns.length).flatMap (frame.addedAt names options) ∧
      (∀ scalar : Occurrence α, scalar.In frame options → ∃! fate, scalar.Meets frame names options fate) ∧
      ((frame.flatten names options).events.filter Event.isDrop).Nodup ∧
      ∀ key row, .valueDropped key row ∈ (frame.flatten names options).events →
        ∃ scalar : Occurrence α, scalar.In frame options ∧ scalar.key = key ∧ scalar.row = row ∧
          scalar.Meets frame names options .conflicting := by
  refine ⟨?_, fun scalar hin => hin.existsUnique_fate hv, nodup_drops_flatten hv, fun key row h => ?_⟩
  · rw [columns_flatten, addedBefore_eq_flatMap]
  · have hdrop : .valueDropped key row ∈ (frame.flatten names options).events.filter Event.isDrop :=
      List.mem_filter.2 ⟨h, rfl⟩
    rw [filter_events_flatten frame names options fun _ _ => rfl] at hdrop
    obtain ⟨position, -, hdrop⟩ := List.mem_flatMap.1 hdrop
    obtain ⟨scalar, hin, rfl, heq, column, hcol, hname, htype⟩ := exists_of_mem_drops_reportsAt hv hdrop
    obtain ⟨rfl, rfl⟩ := Event.valueDropped.inj heq
    exact ⟨scalar, hin, rfl, rfl, hin.conflicting hv hcol hname htype⟩

/-- Rows of which the second has a text under the key of a number in the first. -/
def mixed : Frame Float := ⟨"f", [⟨"value", .string ["\x7b\"n\":1\x7d", "\x7b\"n\":\"x\"\x7d"]⟩], none⟩

theorem accounting_mixed : (mixed.flatten {} {}).events.filter Event.isDrop = [.valueDropped "n" 1] ∧
    ∃ scalar : Occurrence Float, scalar.In mixed {} ∧ scalar.key = "n" ∧ scalar.row = 1 ∧
      scalar.Meets mixed {} {} .conflicting ∧ ∃! fate, scalar.Meets mixed {} {} fate := by
  have hevents : (mixed.flatten {} {}).events.filter Event.isDrop = [.valueDropped "n" 1] := by decide +kernel
  obtain ⟨-, hfates, -, hdrops⟩ := accounting mixed {} {} rfl
  have hdrop : .valueDropped "n" 1 ∈ (mixed.flatten {} {}).events.filter Event.isDrop := by
    rw [hevents]
    exact List.mem_singleton_self _
  obtain ⟨scalar, hin, hkey, hrow, hmeets⟩ := hdrops "n" 1 (List.mem_filter.1 hdrop).1
  exact ⟨hevents, scalar, hin, hkey, hrow, hmeets, hfates scalar hin⟩

end Frame

end Unnest
