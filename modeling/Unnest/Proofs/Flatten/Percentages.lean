import Unnest.Proofs.Exact
import Unnest.Proofs.Flatten.Cells
import Unnest.Proofs.Frame

/-!
# Contributions add up to one hundred

In exact arithmetic the contribution columns of a text column hold, in every row with a payload, shares
that add up to one hundred, or zeros if the total is zero or less. Two things could be in the way: an
anomaly score or a scalar under the name of a contribution column. The first is ruled out by prefixes
neither of which starts with the other, the second by scalar keys that do not start with the prefix of
contributions.
-/

namespace Unnest
variable {α : Type} [Quantity α] {names : NameMap} {options : Options}

/-- The contributions of a payload under names that are not in use, the last one under every name. -/
def Payload.freeContributions (names : NameMap) (options : Options) (inUse : List String)
    (payload : Payload) : Entries String α :=
  Entries.latest ((Diagnostic.contributions names options (payload.diagnostics options.segmentRule)).filter
    fun contribution => contribution.1 ∉ inUse)

/-- The contribution columns among those that flattening adds for the text column at a position. -/
def Frame.contributionsAt (frame : Frame α) (names : NameMap) (options : Options) (position : Nat)
    (cells : List String) : List (Column α) :=
  (frame.addedAt names options position).filter fun column =>
    (cells.filterMap Payload.ofText?).any fun payload =>
      (payload.diagnostics (α := α) options.segmentRule).any fun diagnostic =>
        diagnostic.contributionColumn names options = column.name

/-- Neither of the prefixes starts with the other. -/
structure Options.Apart (options : Options) : Prop where
  contribution : ¬ options.contributionPrefix.toList <+: options.anomalyPrefix.toList
  anomaly : ¬ options.anomalyPrefix.toList <+: options.contributionPrefix.toList

theorem Options.apart_default : Options.Apart {} := ⟨by decide, by decide⟩

namespace Diagnostic

omit [Quantity α] in
theorem prefix_contributionColumn (names : NameMap) (options : Options) (diagnostic : Diagnostic α) :
    options.contributionPrefix.toList <+: (diagnostic.contributionColumn names options).toList := by
  rw [contributionColumn, String.toList_append]
  exact List.prefix_append _ _

omit [Quantity α] in
theorem anomalyColumn_ne (h : options.Apart) {name : String}
    (hname : options.contributionPrefix.toList <+: name.toList) (diagnostic : Diagnostic α) :
    diagnostic.anomalyColumn names options ≠ name := by
  rintro rfl
  have hanomaly : options.anomalyPrefix.toList <+: (diagnostic.anomalyColumn names options).toList := by
    rw [anomalyColumn, String.toList_append]
    exact List.prefix_append _ _
  rcases List.prefix_or_prefix_of_prefix hname hanomaly with hp | hp
  · exact h.contribution hp
  · exact h.anomaly hp

end Diagnostic

namespace Payload
variable {payload : Payload} {payloads : List (Option Payload)} {inUse : List String} {name : String}
  {usable : String → Bool}

theorem score?_eq_none (h : options.Apart) (hname : options.contributionPrefix.toList <+: name.toList) :
    payload.score? (α := α) names options usable name = none := by
  rw [score?, ← Option.not_isSome_iff_eq_none, Entries.last?_isSome_iff]
  intro hm
  obtain ⟨score, hs, hn⟩ := List.mem_map.1 hm
  obtain ⟨diagnostic, -, hd⟩ := List.mem_filterMap.1 hs
  obtain ⟨value, -, rfl⟩ := Option.map_eq_some_iff.1 hd
  exact diagnostic.anomalyColumn_ne h hname hn

section
variable (hkeys : ∀ key ∈ Entries.keys (Schema.discover α payloads options.excludedKeys),
  ¬ options.contributionPrefix.toList <+: key.toList)
include hkeys

theorem scalar?_eq_none (hp : some payload ∈ payloads)
    (hname : options.contributionPrefix.toList <+: name.toList) :
    payload.scalar? (α := α) options name = none :=
  Option.not_isSome_iff_eq_none.1 fun h => hkeys name (mem_discover_of_scalar? hp h) hname

/-- If scalar keys stay away from the prefix of contributions, only names in use are refused to them. -/
theorem isUsable_eq (hname : options.contributionPrefix.toList <+: name.toList) :
    Schema.isUsable inUse (Schema.occurrences α payloads options.excludedKeys) name =
      decide (name ∉ inUse) := by
  have hnone : Entries.get? (Schema.occurrences α payloads options.excludedKeys) name = none := by
    rw [Entries.get?_eq_none_iff, ← Schema.mem_keys_discover]
    exact fun hm => hkeys name hm hname
  rw [Schema.isUsable, hnone, Option.all_none, Bool.and_true]

theorem recorded_shares : (payload.shares (α := α) names options
    (Schema.isUsable inUse (Schema.occurrences α payloads options.excludedKeys))).recorded =
      payload.freeContributions names options inUse := by
  rw [shares, freeContributions, Diagnostic.contributions_accepted]
  refine congrArg Entries.latest (List.filter_congr fun contribution hc => ?_)
  obtain ⟨diagnostic, -, hd⟩ := List.mem_filterMap.1 hc
  obtain ⟨value, -, rfl⟩ := Option.map_eq_some_iff.1 hd
  exact isUsable_eq hkeys (diagnostic.prefix_contributionColumn names options)

end

end Payload

namespace Frame
variable {frame : Frame α} {position row : Nat} {source column : Column α} {cells : List String}
  {raw : String} {payload : Payload}

theorem mem_contributionsAt : column ∈ frame.contributionsAt names options position cells ↔
    column ∈ frame.addedAt names options position ∧ ∃ raw ∈ cells, ∃ payload, Payload.ofText? raw = some payload ∧
      ∃ diagnostic ∈ payload.diagnostics (α := α) options.segmentRule,
        diagnostic.contributionColumn names options = column.name := by
  simp only [contributionsAt, List.mem_filter, List.any_eq_true, List.mem_filterMap, decide_eq_true_iff]
  constructor
  · rintro ⟨hcol, payload, ⟨raw, hraw, hp⟩, hd⟩
    exact ⟨hcol, raw, hraw, payload, hp, hd⟩
  · rintro ⟨hcol, raw, hraw, payload, hp, hd⟩
    exact ⟨hcol, payload, ⟨raw, hraw, hp⟩, hd⟩

section
variable (hapart : options.Apart) (hs : frame.columns[position]? = some source)
  (hc : source.strings? = some cells)
  (hkeys : ∀ key ∈ Entries.keys (Schema.discover α (cells.map Payload.ofText?) options.excludedKeys),
    ¬ options.contributionPrefix.toList <+: key.toList)
  (hraw : cells[row]? = some raw) (hp : Payload.ofText? raw = some payload)
include hapart hs hc hkeys hraw hp

/-- Nothing but a share is written to a contribution column. -/
theorem float64?_contributionsAt (hr : row < frame.rowCount)
    (hcol : column ∈ frame.contributionsAt names options position cells) :
    column.float64? row = some ((payload.share? names options (frame.isUsable names options position cells)
      column.name).getD Quantity.zero) := by
  obtain ⟨hadded, -, -, -, -, diagnostic, -, hname⟩ := mem_contributionsAt.1 hcol
  have hprefix : options.contributionPrefix.toList <+: column.name.toList :=
    hname ▸ diagnostic.prefix_contributionColumn names options
  -- the name is usable, for it starts with the prefix of contributions and is not in use
  have hfree : column.name ∉ frame.inUse names options position :=
    ((mem_names_addedAt hs hc).1 (List.mem_map_of_mem hadded)).2
  have htype : column.type = .float64 := by
    refine type_of_mem_addedAt hs hc hadded ?_
    rw [isUsable, Payload.isUsable_eq hkeys hprefix]
    exact decide_eq_true hfree
  have hcell : payload.cell (α := α) names options (frame.isUsable names options position cells) column.name
      .float64 = .float64 ((payload.share? names options (frame.isUsable names options position cells)
        column.name).getD Quantity.zero) := by
    unfold Payload.cell
    rw [Payload.score?_eq_none hapart hprefix, Payload.scalar?_eq_none hkeys (Payload.mem_map_ofText? hraw hp) hprefix]
    cases payload.share? (α := α) names options (frame.isUsable names options position cells) column.name <;>
      rfl
  rw [Column.float64?, get?_addedAt hs hc hadded hr, hraw, Option.bind_some, hp]
  simp only [htype, hcell]

omit hapart hkeys in
/-- Every contribution that counts has a column. -/
theorem mem_names_contributionsAt {name : String}
    (h : name ∈ Entries.keys (payload.freeContributions (α := α) names options
      (frame.inUse names options position))) :
    name ∈ (frame.contributionsAt names options position cells).map Column.name := by
  rw [Payload.freeContributions, Entries.keys_latest, List.mem_eraseDups] at h
  obtain ⟨contribution, hm, rfl⟩ := List.mem_map.1 h
  obtain ⟨hm, hfree⟩ := List.mem_filter.1 hm
  obtain ⟨diagnostic, hd, hcon⟩ := List.mem_filterMap.1 hm
  obtain ⟨value, -, rfl⟩ := Option.map_eq_some_iff.1 hcon
  obtain ⟨column, hcol, hn⟩ := exists_column_of_field hs hc hraw hp hd (Diagnostic.mem_fields.2 (.inl rfl))
    (of_decide_eq_true hfree)
  refine List.mem_map.2 ⟨column, mem_contributionsAt.2 ⟨hcol, raw, List.mem_of_getElem? hraw, payload, hp,
    diagnostic, hd, hn.symm⟩, hn⟩

end

/-- In exact arithmetic the shares of a row add up to one hundred, or they are all zero; if no contribution
is negative, each lies between zero and one hundred. -/
theorem sum_contributionsAt (frame : Frame ℚ) (names : NameMap) (options : Options) (hapart : options.Apart)
    (hv : frame.validate = .ok ()) {position row : Nat} {source : Column ℚ} {cells : List String}
    {raw : String} {payload : Payload} (hs : frame.columns[position]? = some source)
    (hc : source.strings? = some cells)
    (hkeys : ∀ key ∈ Entries.keys (Schema.discover ℚ (cells.map Payload.ofText?) options.excludedKeys),
      ¬ options.contributionPrefix.toList <+: key.toList)
    (hraw : cells[row]? = some raw) (hp : Payload.ofText? raw = some payload) :
    let values : List ℚ :=
      (payload.freeContributions names options (frame.inUse names options position)).map Prod.snd
    (frame.contributionsAt names options position cells).Sublist
        (frame.flatten names options).value.columns ∧
      ∃ shares : List ℚ,
      (frame.contributionsAt names options position cells).map (·.float64? row) = shares.map some ∧
      (0 < values.sum → shares.sum = 100) ∧ (¬ 0 < values.sum → ∀ share ∈ shares, share = 0) ∧
      ((∀ value ∈ values, 0 ≤ value) → ∀ share ∈ shares, 0 ≤ share ∧ share ≤ 100) := by
  intro values
  have hr : row < frame.rowCount := by
    rw [← (validate_eq_ok.1 hv).1 source (List.mem_of_getElem? hs), Column.length_of_strings? hc]
    exact (List.getElem?_eq_some_iff.1 hraw).1
  let shares : Shares String ℚ := payload.shares names options (frame.isUsable names options position cells)
  have hrecorded : shares.recorded =
      payload.freeContributions names options (frame.inUse names options position) :=
    Payload.recorded_shares hkeys
  have htotal : shares.total = values.sum := by rw [Shares.total_eq_sum, hrecorded]
  let columns := frame.contributionsAt names options position cells
  have hposition : position < frame.columns.length := (List.getElem?_eq_some_iff.1 hs).1
  refine ⟨List.filter_sublist.trans (addedAt_sublist hposition),
    columns.map fun column => (shares.share? column.name).getD 0, ?_, ?_, ?_, ?_⟩
  · rw [List.map_map]
    exact List.map_congr_left fun column hcol =>
      float64?_contributionsAt hapart hs hc hkeys hraw hp hr hcol
  · intro hpos
    have hnodup : (columns.map Column.name).Nodup :=
      (nodup_addedAt hs hc).sublist (List.filter_sublist.map Column.name)
    have hsub : ∀ name ∈ Entries.keys shares.recorded, name ∈ columns.map Column.name := fun name hn =>
      mem_names_contributionsAt hs hc hraw hp (hrecorded ▸ hn)
    have hsum := Shares.sum_share? (payload.nodup_shares _ _ _) hnodup hsub (htotal ▸ hpos)
    rwa [List.map_map] at hsum
  · intro hpos share hshare
    obtain ⟨column, -, rfl⟩ := List.mem_map.1 hshare
    rw [Shares.share?_of_nonpos (htotal ▸ hpos), Option.getD_none]
  · intro hvalues share hshare
    obtain ⟨column, -, rfl⟩ := List.mem_map.1 hshare
    refine Shares.share?_mem_Icc fun entry he => hvalues entry.2 ?_
    exact List.mem_map_of_mem (f := Prod.snd) (hrecorded ▸ he)

theorem sum_contributionsAt_sample : ∃ shares : List ℚ,
    ((sample ℚ).contributionsAt {} {} 0 sampleCells).map (·.float64? 0) = shares.map some ∧
      shares.sum = 100 ∧ ∀ share ∈ shares, 0 ≤ share ∧ share ≤ 100 := by
  have hs : (sample ℚ).columns[0]? = some ⟨"value", .string sampleCells⟩ := rfl
  have hc : (⟨"value", .string sampleCells⟩ : Column ℚ).strings? = some sampleCells := rfl
  have hkeys : ∀ key ∈ Entries.keys (Schema.discover ℚ (sampleCells.map Payload.ofText?) ["timestamp"]),
      ¬ "contrib_".toList <+: key.toList := by decide +kernel
  have hraw : sampleCells[0]? = some (sampleCells.head (by decide)) := rfl
  have hp : Payload.ofText? (sampleCells.head (by decide)) = some ⟨[("diagnostics", .array
      [.object [("name", .string "r\\a"), ("value", .number (.natural 3))],
        .object [("name", .string "r\\b"), ("value", .number (.natural 1))]])]⟩ := by rfl
  obtain ⟨-, shares, hcells, hsum, -, hbounds⟩ := sum_contributionsAt (sample ℚ) {} {} Options.apart_default rfl
    hs hc hkeys hraw hp
  exact ⟨shares, hcells, hsum (by decide +kernel), hbounds (by decide +kernel)⟩

end Frame

end Unnest
