import Unnest.Proofs.Flatten.Again
import Unnest.Proofs.Flatten.Filled

/-!
# Appending rows

A frame continues another if its columns are called and typed alike and start with the cells of the other.
Where no scalar key is the name of a contribution or anomaly column, what flattening adds to it continues what
flattening adds to the other (`Frame.flatten_continues`): later rows give rise to more fields, but only after
those of the same kind that there are without them, and these stay at zero in the earlier rows.
-/

namespace Unnest
variable {α : Type}

/-- A column that starts with the cells of another of its name and type. -/
structure Column.Continues (column' column : Column α) : Prop where
  name : column'.name = column.name
  type : column'.type = column.type
  cells : ∀ row < column.length, column'.get? row = column.get? row

def Frame.Continues (frame' frame : Frame α) : Prop :=
  List.Forall₂ Column.Continues frame'.columns frame.columns

namespace Column.Continues
variable {column column' : Column α}

theorem length_le (h : column'.Continues column) : column.length ≤ column'.length := by
  by_contra hlt
  have hrow : column'.length < column.length := Nat.lt_of_not_le hlt
  have hnone : column.get? column'.length = none := (h.cells _ hrow).symm.trans (get?_eq_none (Nat.le_refl _))
  exact Nat.not_le_of_lt hrow (get?_eq_none_iff.1 hnone)

theorem strings?_isSome (h : column'.Continues column) : column'.strings?.isSome = column.strings?.isSome := by
  rw [Bool.eq_iff_iff, strings?_isSome_iff, strings?_isSome_iff, h.type]

theorem prefix_payloads (h : column'.Continues column) : column.payloads <+: column'.payloads := by
  unfold payloads
  cases hc : column.strings? with
  | none => exact List.nil_prefix
  | some cells =>
    have hsome : column'.strings?.isSome := by rw [h.strings?_isSome, hc, Option.isSome_some]
    obtain ⟨cells', hc'⟩ := Option.isSome_iff_exists.1 hsome
    rw [hc', Option.getD_some, Option.getD_some]
    refine List.IsPrefix.map _ (List.prefix_iff_getElem?.2 fun row hrow => ?_)
    have hcell := h.cells row (length_of_strings? hc ▸ hrow)
    rw [get?_of_strings? hc, get?_of_strings? hc', List.getElem?_eq_getElem hrow] at hcell
    exact Option.map_injective (fun _ _ => Scalar.string.inj) hcell

theorem append_strings (name : String) (cells later : List String) :
    (⟨name, .string (cells ++ later)⟩ : Column α).Continues ⟨name, .string cells⟩ :=
  ⟨rfl, rfl, fun _ hrow => congrArg (Option.map Scalar.string) (List.getElem?_append_left hrow)⟩

end Column.Continues

namespace Frame.Continues
variable {frame frame' : Frame α}

theorem columnNames_eq (h : frame'.Continues frame) : frame'.columnNames = frame.columnNames :=
  columnNames_congr (h.imp fun _ _ hc => hc.name)

theorem rowCount_le (h : frame'.Continues frame) : frame.rowCount ≤ frame'.rowCount := by
  obtain ⟨name, columns, metadata⟩ := frame
  obtain ⟨name', columns', metadata'⟩ := frame'
  cases h with
  | nil => exact Nat.le_refl _
  | cons hc _ => exact hc.length_le

theorem prefix_payloadsAt (h : frame'.Continues frame) (position : Nat) :
    frame.payloadsAt position <+: frame'.payloadsAt position := by
  have hrel := rel_getElem? h position
  unfold payloadsAt
  generalize frame'.columns[position]? = source', frame.columns[position]? = source at hrel ⊢
  cases hrel with
  | none => exact List.nil_prefix
  | some hc => exact hc.prefix_payloads

theorem onlyText {position : Nat} (h : frame'.Continues frame) (honly : frame.OnlyText position) :
    frame'.OnlyText position := by
  intro i
  have hrel := rel_getElem? h i
  rw [← honly i]
  generalize frame'.columns[i]? = source', frame.columns[i]? = source at hrel ⊢
  cases hrel with
  | none => exact Iff.rfl
  | some hc => exact Bool.eq_iff_iff.1 hc.strings?_isSome

end Frame.Continues

variable [Quantity α] {names : NameMap} {options : Options}

namespace Payload
variable {inUse : List String} {payloads later : List (Option Payload)}

theorem prefix_scalarPart :
    scalarPart α options inUse payloads <+: scalarPart α options inUse (payloads ++ later) := by
  rw [scalarPart, scalarPart, Schema.occurrences_append, List.filter_append, Entries.firsts_append]
  exact List.prefix_append _ _

section
variable {payload : Payload} {name : String} {type : ScalarType} {usable : String → Bool}

theorem exists_of_score? (h : (payload.score? (α := α) names options usable name).isSome) :
    ∃ diagnostic ∈ payload.diagnostics (α := α) options.segmentRule,
      (name, .float64) ∈ diagnostic.fields names options usable := by
  obtain ⟨score, hscore⟩ := Option.isSome_iff_exists.1 h
  obtain ⟨diagnostic, hd, hs⟩ := List.mem_filterMap.1 (Entries.mem_of_last? hscore)
  obtain ⟨hd, hu⟩ := List.mem_filter.1 hd
  obtain ⟨value, hvalue, hs⟩ := Option.map_eq_some_iff.1 hs
  refine ⟨diagnostic, hd, Diagnostic.mem_fields.2 (.inr ⟨hu, hvalue ▸ rfl, ?_⟩)⟩
  rw [(Prod.mk.inj hs).1]

/-- What no row asks for, no row supplies. -/
theorem supplied_eq_zero (h : name ∉ Entries.keys (candidates α names options inUse payloads)) (row : Nat) :
    supplied (α := α) names options inUse payloads name type row = Scalar.zero type := by
  unfold supplied
  cases hp : payloads[row]?.join with
  | none => rfl
  | some payload =>
    have hmem : some payload ∈ payloads := List.mem_of_getElem? (Option.join_eq_some_iff.1 hp)
    rw [mem_keys_candidates, not_or] at h
    obtain ⟨hscalars, hfields⟩ := h
    have hshare : payload.share? (α := α) names options (isUsable α options inUse payloads) name = none := by
      refine Option.not_isSome_iff_eq_none.1 fun hsome => ?_
      obtain ⟨diagnostic, hd, -, rfl⟩ := exists_of_share? hsome
      exact hfields ⟨payload, hmem, diagnostic, hd, Diagnostic.mem_fields.2 (.inl rfl)⟩
    have hscore : payload.score? (α := α) names options (isUsable α options inUse payloads) name = none := by
      refine Option.not_isSome_iff_eq_none.1 fun hsome => ?_
      obtain ⟨diagnostic, hd, hf⟩ := exists_of_score? hsome
      exact hfields ⟨payload, hmem, diagnostic, hd, hf⟩
    have hscalar : payload.scalar? (α := α) options name = none :=
      Option.not_isSome_iff_eq_none.1 fun hsome => hscalars (mem_occurrences_of_scalar? hmem hsome)
    show payload.cell names options _ name type = _
    unfold cell
    rw [hshare, hscore, hscalar]
    cases type <;> rfl

end

section
variable (hkeys : ∀ diagnostic ∈ allDiagnostics (α := α) options (payloads ++ later),
  diagnostic.contributionColumn names options ∉
      Entries.keys (Schema.occurrences α (payloads ++ later) options.excludedKeys) ∧
    diagnostic.anomalyColumn names options ∉
      Entries.keys (Schema.occurrences α (payloads ++ later) options.excludedKeys))
include hkeys

theorem isUsable_append : ∀ diagnostic ∈ allDiagnostics (α := α) options (payloads ++ later),
    isUsable α options inUse (payloads ++ later) (diagnostic.contributionColumn names options) =
      isUsable α options inUse payloads (diagnostic.contributionColumn names options) := by
  intro diagnostic hd
  have hnone := Entries.get?_eq_none_iff.2 (hkeys diagnostic hd).1
  rw [isUsable, isUsable, Schema.isUsable, Schema.isUsable, hnone]
  rw [Schema.occurrences_append, Entries.get?_append, Option.or_eq_none_iff] at hnone
  rw [hnone.1]

theorem prefix_requested :
    requested α names options inUse payloads <+: requested α names options inUse (payloads ++ later) := by
  have hall : allDiagnostics (α := α) options (payloads ++ later) =
      allDiagnostics options payloads ++ allDiagnostics options later := List.flatMap_append
  have hfields : requested α names options inUse payloads = (allDiagnostics (α := α) options payloads).flatMap
      (Diagnostic.fields names options (isUsable α options inUse (payloads ++ later))) := by
    refine List.flatMap_congr fun diagnostic hd => ?_
    rw [Diagnostic.fields, Diagnostic.fields, isUsable_append hkeys diagnostic (hall ▸ List.mem_append_left _ hd)]
  rw [hfields, requested, hall, List.flatMap_append]
  exact List.prefix_append _ _

theorem prefix_diagnosticPart :
    diagnosticPart α names options inUse payloads <+: diagnosticPart α names options inUse (payloads ++ later) := by
  obtain ⟨rest, hrest⟩ : requested α names options inUse payloads <+:
      requested α names options inUse (payloads ++ later) := prefix_requested hkeys
  have hfilter : (requested α names options inUse payloads).filter (fun field => field.1 ∉ inUse ∧
        field.1 ∉ Entries.keys (Schema.occurrences α (payloads ++ later) options.excludedKeys)) =
      (requested α names options inUse payloads).filter fun field => field.1 ∉ inUse ∧
        field.1 ∉ Entries.keys (Schema.occurrences α payloads options.excludedKeys) := by
    refine List.filter_congr fun field hf => ?_
    obtain ⟨diagnostic, hd, hf⟩ := List.mem_flatMap.1 (hrest ▸ List.mem_append_left rest hf)
    -- a later scalar key cannot take the field away, since it is not called like it
    have hkey : field.1 ∉ Entries.keys (Schema.occurrences α (payloads ++ later) options.excludedKeys) := by
      rcases Diagnostic.mem_fields.1 hf with rfl | ⟨-, -, rfl⟩
      · exact (hkeys diagnostic hd).1
      · exact (hkeys diagnostic hd).2
    have hkey' := hkey
    rw [Schema.occurrences_append, Entries.keys_append, List.mem_append, not_or] at hkey'
    simp [hkey, hkey'.1]
  rw [diagnosticPart, diagnosticPart, ← hrest, List.filter_append, hfilter, Entries.firsts_append]
  exact List.prefix_append _ _

theorem supplied_append {name : String} {type : ScalarType} {row : Nat} (hrow : row < payloads.length) :
    supplied (α := α) names options inUse (payloads ++ later) name type row =
      supplied names options inUse payloads name type row := by
  refine supplied_congr (by rw [List.getElem?_append_left hrow]) fun payload hmem => ?_
  exact cell_congr fun diagnostic hd =>
    isUsable_append hkeys diagnostic (mem_allDiagnostics (List.mem_append_left _ hmem) hd)

theorem continues_fill {rows : Nat} (hrows : payloads.length ≤ rows) (field : String × ScalarType) :
    (fill (α := α) names options inUse (payloads ++ later) rows field).Continues
      (fill names options inUse payloads payloads.length field) := by
  refine ⟨rfl, (type_fill _ _).trans (type_fill _ _).symm, fun row hrow => ?_⟩
  rw [length_fill] at hrow
  rw [get?_fill field (Nat.lt_of_lt_of_le hrow hrows), get?_fill field hrow, supplied_append hkeys hrow]

theorem newFields_subset_append :
    newFields α names options inUse payloads ⊆ newFields α names options inUse (payloads ++ later) := by
  rw [newFields_eq_append, newFields_eq_append]
  intro field hf
  rcases List.mem_append.1 hf with hf | hf
  · exact List.mem_append_left _ (prefix_scalarPart.subset hf)
  · exact List.mem_append_right _ ((prefix_diagnosticPart hkeys).subset hf)

theorem forall₂_take_map_fill {rows : Nat} (hrows : payloads.length ≤ rows)
    {fields fields' : List (String × ScalarType)} (h : fields <+: fields') : List.Forall₂ Column.Continues
      ((fields'.map (fill (α := α) names options inUse (payloads ++ later) rows)).take
        (fields.map (fill (α := α) names options inUse payloads payloads.length)).length)
      (fields.map (fill names options inUse payloads payloads.length)) := by
  obtain ⟨rest, rfl⟩ := h
  rw [List.map_append, List.take_left' (by rw [List.length_map, List.length_map]), List.forall₂_map_left_iff,
    List.forall₂_map_right_iff, List.forall₂_same]
  exact fun field _ => continues_fill hkeys hrows field

end

end Payload

namespace Frame
variable {frame frame' : Frame α} {position : Nat}

namespace OnlyText

theorem scalarColumns_eq (h : frame.OnlyText position) : frame.scalarColumns names options =
    (Payload.scalarPart α options frame.columnNames (frame.payloadsAt position)).map
      (Payload.fill names options frame.columnNames (frame.payloadsAt position) frame.rowCount) := by
  rw [scalarColumns, flatMap_range_eq h.lt_length fun i hi => by rw [h.addedAt_eq_nil hi, List.filter_nil],
    filter_scalar_addedAt, h.inUse_eq]

theorem diagnosticColumns_eq (h : frame.OnlyText position) : frame.diagnosticColumns names options =
    (Payload.diagnosticPart α names options frame.columnNames (frame.payloadsAt position)).map
      (Payload.fill names options frame.columnNames (frame.payloadsAt position) frame.rowCount) := by
  rw [diagnosticColumns, flatMap_range_eq h.lt_length fun i hi => by rw [h.addedAt_eq_nil hi, List.filter_nil],
    filter_diagnostic_addedAt, h.inUse_eq]

omit [Quantity α] in
theorem length_payloadsAt (h : frame.OnlyText position) (hv : frame.validate = .ok ()) :
    (frame.payloadsAt position).length = frame.rowCount := by
  obtain ⟨cells, hcells⟩ := Option.isSome_iff_exists.1 ((h position).2 rfl)
  obtain ⟨source, hs, hc⟩ := Option.bind_eq_some_iff.1 hcells
  rw [payloadsAt, hs, Option.elim_some, Column.payloads, hc, Option.getD_some, List.length_map,
    ← Column.length_of_strings? hc]
  exact (validate_eq_ok.1 hv).1 source (List.mem_of_getElem? hs)

end OnlyText

/-- Appended rows leave what flattening has added: where no scalar key is the name of a contribution or anomaly
column, every added column goes on under its name and type, the columns of scalars and those of diagnostics
start with those that there were, and a column that is new has zeros in the old rows. -/
theorem flatten_continues (frame frame' : Frame α) (names : NameMap) (options : Options) {position : Nat}
    (hv : frame.validate = .ok ()) (honly : frame.OnlyText position) (hcontinues : frame'.Continues frame)
    (hkeys : ∀ key ∈ frame'.scalarKeys options, key ∉ frame'.diagnosticNames names options) :
    (∀ column ∈ frame.added names options, ∃ column' ∈ frame'.added names options, column'.Continues column) ∧
      List.Forall₂ Column.Continues
        ((frame'.scalarColumns names options).take (frame.scalarColumns names options).length)
        (frame.scalarColumns names options) ∧
      List.Forall₂ Column.Continues
        ((frame'.diagnosticColumns names options).take (frame.diagnosticColumns names options).length)
        (frame.diagnosticColumns names options) ∧
      ∀ column' ∈ frame'.added names options,
        (∀ column ∈ frame.added names options, column.name ≠ column'.name) →
          ∀ row < frame.rowCount, column'.get? row = some (Scalar.zero column'.type) := by
  have honly' : frame'.OnlyText position := hcontinues.onlyText honly
  have hrows : frame.rowCount ≤ frame'.rowCount := hcontinues.rowCount_le
  rw [honly.added_eq, honly'.added_eq, addedAt_eq_filledColumns, addedAt_eq_filledColumns, honly.inUse_eq,
    honly'.inUse_eq, honly.scalarColumns_eq, honly'.scalarColumns_eq, honly.diagnosticColumns_eq,
    honly'.diagnosticColumns_eq, hcontinues.columnNames_eq, ← honly.length_payloadsAt hv]
  rw [← honly.length_payloadsAt hv] at hrows
  obtain ⟨later, hlater⟩ := hcontinues.prefix_payloadsAt position
  have hkeys' : ∀ diagnostic ∈ Payload.allDiagnostics (α := α) options (frame'.payloadsAt position),
      diagnostic.contributionColumn names options ∉
          Entries.keys (Schema.occurrences α (frame'.payloadsAt position) options.excludedKeys) ∧
        diagnostic.anomalyColumn names options ∉
          Entries.keys (Schema.occurrences α (frame'.payloadsAt position) options.excludedKeys) := by
    intro diagnostic hd
    have hd := mem_diagnostics hd
    exact ⟨fun hk => hkeys _ (mem_scalarKeys hk) (contributionColumn_mem hd),
      fun hk => hkeys _ (mem_scalarKeys hk) (anomalyColumn_mem hd)⟩
  rw [← hlater] at hkeys' ⊢
  refine ⟨?_, Payload.forall₂_take_map_fill hkeys' hrows Payload.prefix_scalarPart,
    Payload.forall₂_take_map_fill hkeys' hrows (Payload.prefix_diagnosticPart hkeys'), ?_⟩
  · intro column hcolumn
    obtain ⟨field, hf, rfl⟩ := List.mem_map.1 hcolumn
    have hf' := Payload.newFields_subset_append hkeys' hf
    exact ⟨_, List.mem_map_of_mem hf', Payload.continues_fill hkeys' hrows field⟩
  · intro column' hcolumn' hnew row hrow
    obtain ⟨field, hf, rfl⟩ := List.mem_map.1 hcolumn'
    -- without the later rows no row asks for the field
    have hunasked : field.1 ∉ Entries.keys (Payload.candidates α names options frame.columnNames
        (frame.payloadsAt position)) := by
      intro hk
      have hfree : field.1 ∉ frame.columnNames := (Payload.mem_keys_newFields.1 (List.mem_map_of_mem hf)).2
      obtain ⟨field', hf', hname⟩ := List.mem_map.1 (Payload.mem_keys_newFields.2 ⟨hk, hfree⟩)
      exact hnew _ (List.mem_map_of_mem hf') hname
    rw [Payload.get?_fill field (Nat.lt_of_lt_of_le hrow hrows), Payload.supplied_append hkeys' hrow,
      Payload.supplied_eq_zero hunasked, Scalar.ofType_zero, Payload.type_fill]

/-- A cell with a scalar and a diagnostic that the sample does not have. -/
def laterCell : String := "\x7b\"score\":2,\"diagnostics\":[\x7b\"name\":\"r\\\\c\",\"value\":1\x7d]\x7d"

def longerSample (α : Type) : Frame α := ⟨"f", [⟨"value", .string (sampleCells ++ [laterCell])⟩], none⟩

theorem flatten_continues_sample :
    let score : Column Float := ⟨"score", .float64 [0.0, 0.0, 2.0]⟩
    (sample Float).validate = .ok () ∧ (sample Float).OnlyText 0 ∧ (longerSample Float).Continues (sample Float) ∧
      (∀ key ∈ (longerSample Float).scalarKeys {}, key ∉ (longerSample Float).diagnosticNames {} {}) ∧
      (∀ column ∈ (sample Float).added {} {},
        ∃ column' ∈ (longerSample Float).added {} {}, column'.Continues column) ∧
      score ∈ (longerSample Float).added {} {} ∧ ∀ row < 2, score.get? row = some (.float64 0.0) := by
  intro score
  have hcontinues : (longerSample Float).Continues (sample Float) :=
    .cons (Column.Continues.append_strings _ _ _) .nil
  have hkeys : ∀ key ∈ (longerSample Float).scalarKeys {},
      key ∉ (longerSample Float).diagnosticNames {} {} := by decide +kernel
  have hscore : score ∈ (longerSample Float).added {} {} := by decide +kernel
  have hnew : ∀ column ∈ (sample Float).added {} {}, column.name ≠ score.name := by decide +kernel
  obtain ⟨hold, -, -, hzero⟩ := flatten_continues (sample Float) (longerSample Float) {} {} rfl onlyText_sample
    hcontinues hkeys
  exact ⟨rfl, onlyText_sample, hcontinues, hkeys, hold, hscore, hzero score hscore hnew⟩

end Frame

end Unnest
