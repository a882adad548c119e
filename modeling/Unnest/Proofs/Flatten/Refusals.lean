import Unnest.Proofs.Flatten.Cells
import Unnest.Proofs.Frame

/-!
# Refused contribution columns

A diagnostic whose contribution column cannot be had is passed over altogether. Its contribution is left out
of the total of its row, so that a share is a share of the contributions that have a column
(`Frame.share_flatten`); it is a share of all contributions where none was refused, and not in general
(`Frame.share_of_all_fails`). Its anomaly score is left out as well: a score is kept if both columns of its
diagnostic can be had (`Frame.anomaly_flatten`), and lost with the contribution column alone
(`Frame.anomaly_without_contribution_fails`).
-/

namespace Unnest
variable {α : Type} {names : NameMap} {options : Options} {usable : String → Bool}

namespace Diagnostic

theorem last?_scores_cons (diagnostic : Diagnostic α) (rest : List (Diagnostic α)) (column : String) :
    Entries.last? (scores names options (diagnostic :: rest)) column =
      (Entries.last? (scores names options rest) column).or
        (if diagnostic.anomalyColumn names options = column then diagnostic.anomalyScore else none) := by
  unfold scores
  cases hs : diagnostic.anomalyScore with
  | none => simp [hs]
  | some score => simp [hs, Entries.last?_cons]

theorem contributionColumn_eq {diagnostic other : Diagnostic α}
    (h : diagnostic.anomalyColumn names options = other.anomalyColumn names options) :
    diagnostic.contributionColumn names options = other.contributionColumn names options := by
  have hname : names.resolve diagnostic.propertyId = names.resolve other.propertyId :=
    (String.append_right_inj _).1 h
  rw [contributionColumn, contributionColumn, hname]

/-- The scores under one name count together or not at all, for their diagnostics share a contribution
column. -/
theorem last?_scores_accepted (diagnostic : Diagnostic α) (diagnostics : List (Diagnostic α)) :
    Entries.last? (scores names options (accepted names options usable diagnostics))
        (diagnostic.anomalyColumn names options) =
      if usable (diagnostic.contributionColumn names options) then
        Entries.last? (scores names options diagnostics) (diagnostic.anomalyColumn names options)
      else none := by
  induction diagnostics with
  | nil => simp [scores, accepted, Entries.last?]
  | cons first rest ih =>
    have haccepted : accepted names options usable (first :: rest) =
        if usable (first.contributionColumn names options) then first :: accepted names options usable rest
        else accepted names options usable rest := List.filter_cons
    rw [haccepted, last?_scores_cons]
    by_cases hn : first.anomalyColumn names options = diagnostic.anomalyColumn names options
    · rw [contributionColumn_eq hn, if_pos hn]
      split
      · rename_i hu
        rw [last?_scores_cons, if_pos hn, ih, if_pos hu]
      · rename_i hu
        rw [ih, if_neg hu]
    · rw [if_neg hn, Option.or_none, ← ih]
      split
      · rw [last?_scores_cons, if_neg hn, Option.or_none]
      · rfl

end Diagnostic

variable [Quantity α]

namespace Payload
variable {payload : Payload}

/-- The contributions of a payload, each under the name of a column that may be refused. -/
def contributions (names : NameMap) (options : Options) (payload : Payload) : List (String × α) :=
  Diagnostic.contributions names options (payload.diagnostics options.segmentRule)

/-- The sum of the last contributions under the names that count. -/
def totalOf (names : NameMap) (options : Options) (counts : String → Bool) (payload : Payload) : α :=
  Shares.total ⟨Entries.latest ((payload.contributions names options).filter fun contribution =>
    counts contribution.1)⟩

theorem recorded_shares_eq : (payload.shares (α := α) names options usable).recorded =
    Entries.latest ((payload.contributions names options).filter fun contribution => usable contribution.1) := by
  rw [shares, Diagnostic.contributions_accepted]
  rfl

theorem total_shares : (payload.shares (α := α) names options usable).total =
    payload.totalOf names options usable := by
  rw [totalOf, ← recorded_shares_eq]

theorem totalOf_congr {counts counts' : String → Bool}
    (h : ∀ contribution ∈ payload.contributions (α := α) names options,
      counts contribution.1 = counts' contribution.1) :
    payload.totalOf (α := α) names options counts = payload.totalOf names options counts' := by
  rw [totalOf, totalOf, List.filter_congr h]

/-- A share is the last contribution under its name as a percentage of those that count. -/
theorem share?_eq_percentage {name : String} {share : α}
    (h : payload.share? names options usable name = some share) :
    ∃ value, Entries.last? (payload.contributions names options) name = some value ∧
      share = Quantity.percentage value (payload.totalOf names options usable) := by
  obtain ⟨value, hv, hshare⟩ := Shares.share?_eq_some h
  rw [recorded_shares_eq, Entries.get?_latest, Entries.last?_filter usable] at hv
  rw [total_shares] at hshare
  split at hv
  · exact ⟨value, hv, hshare⟩
  · cases hv

end Payload

namespace Frame
variable {frame : Frame α} {position row : Nat} {source column : Column α} {cells : List String}
  {raw : String} {payload : Payload}

theorem float64?_of_share? (hv : frame.validate = .ok ()) (hs : frame.columns[position]? = some source)
    (hc : source.strings? = some cells) (hraw : cells[row]? = some raw)
    (hp : Payload.ofText? raw = some payload) (hcol : column ∈ frame.addedAt names options position) {share : α}
    (hshare : payload.share? names options (frame.isUsable names options position cells) column.name =
      some share) : column.float64? row = some share := by
  rw [Column.float64?, get?_of_share? hs hc hraw hp hcol (lt_rowCount hv hs hc hraw) hshare]

/-- A share that flattening writes is a percentage of the contributions that have a column; where none was
refused, of all contributions. -/
theorem share_flatten (frame : Frame α) (names : NameMap) (options : Options) (hv : frame.validate = .ok ())
    {position row : Nat} {source column : Column α} {cells : List String} {raw : String} {payload : Payload}
    (hs : frame.columns[position]? = some source) (hc : source.strings? = some cells)
    (hraw : cells[row]? = some raw) (hp : Payload.ofText? raw = some payload)
    (hcol : column ∈ frame.addedAt names options position) {share : α}
    (hshare : payload.share? names options (frame.isUsable names options position cells) column.name =
      some share) :
    column ∈ (frame.flatten names options).value.columns ∧ column.float64? row = some share ∧
      ∃ value, Entries.last? (payload.contributions names options) column.name = some value ∧
        share = Quantity.percentage value
          (payload.totalOf names options (frame.isUsable names options position cells)) ∧
        ((∀ contribution ∈ payload.contributions (α := α) names options,
            frame.isUsable names options position cells contribution.1) →
          share = Quantity.percentage value (payload.totalOf names options fun _ => true)) := by
  have hposition : position < frame.columns.length := (List.getElem?_eq_some_iff.1 hs).1
  obtain ⟨value, hlast, heq⟩ := Payload.share?_eq_percentage hshare
  refine ⟨(addedAt_sublist hposition).subset hcol, float64?_of_share? hv hs hc hraw hp hcol hshare, value,
    hlast, heq, fun hall => ?_⟩
  have htotal : payload.totalOf (α := α) names options (frame.isUsable names options position cells) =
      payload.totalOf names options fun _ => true := Payload.totalOf_congr hall
  rw [heq, htotal]

theorem share_flatten_sample :
    let column : Column Float := ⟨"contrib_a", .float64 [75.0, 0.0]⟩
    column ∈ ((sample Float).flatten {} {}).value.columns ∧ column.float64? 0 = some 75.0 ∧
      ∃ value, Entries.last? (samplePayload.contributions (α := Float) {} {}) "contrib_a" = some value ∧
        75.0 = Quantity.percentage value (samplePayload.totalOf (α := Float) {} {} fun _ => true) := by
  intro column
  have hcol : column ∈ (sample Float).addedAt {} {} 0 := by decide +kernel
  have hshare : samplePayload.share? (α := Float) {} {} ((sample Float).isUsable {} {} 0 sampleCells)
      column.name = some 75.0 := by decide +kernel
  have hs : (sample Float).columns[0]? = some ⟨"value", .string sampleCells⟩ := rfl
  have hraw : sampleCells[0]? = some (sampleCells.head (by decide)) := rfl
  obtain ⟨hmem, hcell, value, hlast, -, hall⟩ :=
    share_flatten (sample Float) {} {} rfl hs rfl hraw ofText?_sampleCells hcol hshare
  exact ⟨hmem, hcell, value, hlast, hall (by decide +kernel)⟩

/-- The sample beside a column that has the name of one of its contribution columns. -/
def crowded : Frame Float :=
  ⟨"f", [⟨"contrib_a", .float64 [7.0, 7.0]⟩, ⟨"value", .string sampleCells⟩], none⟩

/-- A share need not be a share of all contributions: of three and one the latter is everything once the
column of the former is refused. -/
theorem share_of_all_fails : crowded.validate = .ok () ∧
    (⟨"contrib_b", .float64 [100.0, 0.0]⟩ : Column Float) ∈ (crowded.flatten {} {}).value.columns ∧
    samplePayload.share? (α := Float) {} {} (crowded.isUsable {} {} 1 sampleCells) "contrib_b" = some 100.0 ∧
    Entries.last? (samplePayload.contributions (α := Float) {} {}) "contrib_b" = some 1.0 ∧
    Quantity.percentage 1.0 (samplePayload.totalOf (α := Float) {} {} fun _ => true) = 25.0 ∧
    (100.0 : Float) ≠ 25.0 := by
  refine ⟨rfl, ?_, ?_, ?_, ?_, ?_⟩ <;> decide +kernel

/-- An anomaly score is kept if both columns of its diagnostic can be had. -/
theorem anomaly_flatten (frame : Frame α) (names : NameMap) (options : Options) (hv : frame.validate = .ok ())
    {position row : Nat} {source : Column α} {cells : List String} {raw : String} {payload : Payload}
    (hs : frame.columns[position]? = some source) (hc : source.strings? = some cells)
    (hraw : cells[row]? = some raw) (hp : Payload.ofText? raw = some payload) {diagnostic : Diagnostic α}
    (hd : diagnostic ∈ payload.diagnostics options.segmentRule) (hscore : diagnostic.anomalyScore.isSome)
    (hanomaly : frame.isUsable names options position cells (diagnostic.anomalyColumn names options))
    (hcontribution : frame.isUsable names options position cells
      (diagnostic.contributionColumn names options)) :
    ∃ column ∈ frame.addedAt names options position, column ∈ (frame.flatten names options).value.columns ∧
      column.name = diagnostic.anomalyColumn names options ∧ column.type = .float64 ∧
      (payload.share? (α := α) names options (frame.isUsable names options position cells) column.name = none →
        ∃ score, Entries.last? (Diagnostic.scores names options (payload.diagnostics options.segmentRule))
            column.name = some score ∧ column.float64? row = some score) := by
  have hposition : position < frame.columns.length := (List.getElem?_eq_some_iff.1 hs).1
  have hfield : (diagnostic.anomalyColumn names options, ScalarType.float64) ∈
      Payload.candidates α names options (frame.inUse names options position) (cells.map Payload.ofText?) :=
    List.mem_append_right _ (List.mem_flatMap.2 ⟨some payload, Payload.mem_map_ofText? hraw hp,
      List.mem_flatMap.2 ⟨diagnostic, hd, Diagnostic.mem_fields.2 (.inr ⟨hcontribution, hscore, rfl⟩)⟩⟩)
  have hfree : diagnostic.anomalyColumn names options ∉ frame.inUse names options position := by
    rw [isUsable, Schema.isUsable, Bool.and_eq_true] at hanomaly
    exact of_decide_eq_true hanomaly.1
  obtain ⟨column, hcol, hname⟩ := List.mem_map.1
    ((mem_names_addedAt hs hc).2 ⟨List.mem_map_of_mem (f := Prod.fst) hfield, hfree⟩)
  have htype : column.type = .float64 := type_of_mem_addedAt hs hc hcol (hname ▸ hanomaly)
  refine ⟨column, hcol, (addedAt_sublist hposition).subset hcol, hname, htype, fun hshare => ?_⟩
  -- the diagnostic has a score itself, so there is a last one
  have hlast : (Entries.last? (Diagnostic.scores (α := α) names options
      (payload.diagnostics options.segmentRule)) column.name).isSome := by
    rw [Entries.last?_isSome_iff, hname]
    obtain ⟨score, hsome⟩ := Option.isSome_iff_exists.1 hscore
    exact List.mem_map.2 ⟨(diagnostic.anomalyColumn names options, score),
      List.mem_filterMap.2 ⟨diagnostic, hd, by rw [hsome, Option.map_some]⟩, rfl⟩
  obtain ⟨score, hsome⟩ := Option.isSome_iff_exists.1 hlast
  have hkept : payload.score? names options (frame.isUsable names options position cells) column.name =
      some score := by
    rw [hname] at hsome ⊢
    rw [Payload.score?, Diagnostic.last?_scores_accepted, if_pos hcontribution, hsome]
  have hcell := get?_addedAt hs hc hcol (lt_rowCount hv hs hc hraw)
  rw [hraw, Option.bind_some, hp] at hcell
  simp only [Payload.cell, hshare, htype, hkept] at hcell
  exact ⟨score, hsome, by rw [Column.float64?, hcell]⟩

/-- A cell whose only diagnostic has a contribution and an anomaly score. -/
def scoredCell : String :=
  "\x7b\"diagnostics\":[\x7b\"name\":\"r\\\\a\",\"value\":3,\"anomaly_score\":2\x7d]\x7d"

def scoredPayload : Payload :=
  ⟨[("diagnostics", .array [.object [("name", .string "r\\a"), ("value", .number (.natural 3)),
    ("anomaly_score", .number (.natural 2))]])]⟩

def scoredDiagnostic : Diagnostic Float := ⟨"a", some 3.0, some 2.0⟩

theorem anomaly_flatten_sample :
    let frame : Frame Float := ⟨"f", [⟨"value", .string [scoredCell]⟩], none⟩
    ∃ column ∈ (frame.flatten {} {}).value.columns, column.name = "diag_anomaly_a" ∧ column.type = .float64 ∧
      ∃ score, Entries.last? (Diagnostic.scores {} {} [scoredDiagnostic]) column.name = some score ∧
        column.float64? 0 = some score := by
  intro frame
  have hp : Payload.ofText? scoredCell = some scoredPayload := by rfl
  have hdiagnostics : scoredPayload.diagnostics (α := Float) .index1 = [scoredDiagnostic] := by decide +kernel
  have hd : scoredDiagnostic ∈ scoredPayload.diagnostics (α := Float) .index1 := by
    rw [hdiagnostics]
    exact List.mem_singleton_self _
  have hs : frame.columns[0]? = some ⟨"value", .string [scoredCell]⟩ := rfl
  have hraw : [scoredCell][0]? = some scoredCell := rfl
  obtain ⟨column, -, hmem, hname, htype, hkept⟩ :=
    anomaly_flatten frame {} {} rfl hs rfl hraw hp hd rfl (by decide +kernel) (by decide +kernel)
  have hcolumn : column.name = "diag_anomaly_a" := hname
  refine ⟨column, hmem, hcolumn, htype, hdiagnostics ▸ hkept ?_⟩
  rw [hcolumn]
  decide +kernel

/-- An anomaly score is lost with the contribution column, though its own column could be had. -/
theorem anomaly_without_contribution_fails :
    let frame : Frame Float := ⟨"f", [⟨"contrib_a", .float64 [7.0]⟩, ⟨"value", .string [scoredCell]⟩], none⟩
    frame.validate = .ok () ∧
      (Payload.ofText? scoredCell).map (·.diagnostics .index1) = some [scoredDiagnostic] ∧
      frame.isUsable {} {} 1 [scoredCell] (scoredDiagnostic.anomalyColumn {} {}) ∧
      (frame.flatten {} {}).value.columnNames = ["contrib_a", "value"] := by
  refine ⟨rfl, ?_, ?_, ?_⟩ <;> decide +kernel

end Frame

end Unnest
