import Unnest.Describe.Catalog
import Unnest.Proofs.Flatten.Extends
import Unnest.Proofs.Flatten.Refusals
import Unnest.Proofs.Frame.RoundTrip

/-!
# Flattened frames that are written

The numbers of payloads are finite, and so is every cell that flattening adds, except that a share can be
out of the range of doubles: contributions may nearly cancel, and one of them may be too large as a
percentage of what is left. So the flattened frames of a file that was read can be written and read again
exactly if all shares are finite (`Frame.exists_parseFile_flattenAll`), and not in general
(`Frame.parseFile_flattenAll_fails`).
-/

namespace Unnest
open Text Json

namespace Json
variable {depth : Nat} {j value : Json}

theorem Readable.exists_member {members : List (String × Json)} (h : Readable depth (.object members)) :
    ∀ m ∈ members, ∃ d, Readable d m.2 := by
  cases h with
  | object h _ => exact fun m hm => ⟨_, h m hm⟩

theorem Readable.exists_get? {key : String} (h : Readable depth j) (hv : j.get? key = some value) :
    ∃ d, Readable d value := by
  cases h with
  | object h _ => exact ⟨_, h _ (Entries.mem_of_get? hv)⟩
  | null | bool | number | string | array => cases hv

theorem Readable.exists_item {items : List Json} (h : Readable depth j) (hitems : j.array? = some items) :
    ∀ item ∈ items, ∃ d, Readable d item := by
  cases h with
  | array h =>
    obtain rfl := Option.some_inj.1 hitems
    exact fun item hitem => ⟨_, h item hitem⟩
  | null | bool | number | string | object => cases hitems

theorem Readable.canonical {n : Number} (h : Readable depth j) (hn : j.number? = some n) : n.Canonical := by
  cases h with
  | number _ h => exact Option.some_inj.1 hn ▸ h
  | null | bool | string | array | object => cases hn

end Json

/-- The scalar is no infinity and not not-a-number. -/
def Scalar.Finite : Scalar Float → Prop
  | float64 x => x.isFinite = true
  | _ => True

theorem Scalar.finite_of_ofJson? {depth : Nat} {j : Json} {value : Scalar Float} (h : Readable depth j)
    (hv : Scalar.ofJson? j = some value) : value.Finite := by
  cases h with
  | number _ h =>
    have hfinite : (Scalar.float64 (Number.toFloat _)).Finite := h.isFinite_toFloat
    exact Option.some_inj.1 hv ▸ hfinite
  | bool | string =>
    cases hv
    trivial
  | null | array | object => cases hv

theorem Scalar.finite_zero (type : ScalarType) : (Scalar.zero type : Scalar Float).Finite := by
  cases type with
  | float64 => exact Eq.refl true
  | string => trivial
  | bool => trivial

theorem Column.finite_iff {column : Column Float} :
    column.cells.Finite ↔ ∀ row value, column.get? row = some value → value.Finite := by
  obtain ⟨name, cells⟩ := column
  cases cells with
  | float64 xs =>
    constructor
    · intro h row value hv
      obtain ⟨x, hx, rfl⟩ := Option.map_eq_some_iff.1 hv
      exact h x (List.mem_of_getElem? hx)
    · intro h x hx
      obtain ⟨row, hrow⟩ := List.getElem?_of_mem hx
      exact h row (.float64 x) (Option.map_eq_some_iff.2 ⟨x, hrow, rfl⟩)
  | string xs =>
    refine iff_of_true nofun fun row value hv => ?_
    obtain ⟨s, -, rfl⟩ := Option.map_eq_some_iff.1 hv
    trivial
  | bool xs =>
    refine iff_of_true nofun fun row value hv => ?_
    obtain ⟨b, -, rfl⟩ := Option.map_eq_some_iff.1 hv
    trivial

/-! ### What payloads supply -/

namespace Payload
variable {names : NameMap} {options : Options} {usable : String → Bool} {payload : Payload} {name raw : String}
  {depth : Nat}

theorem readable_of_ofText? (h : ofText? raw = some payload) : Readable nestingLimit (.object payload.members) := by
  rw [ofText?, toOption_eq_some, decode] at h
  split at h
  · cases h
  · simp only at h
    split at h
    · cases h
    · rename_i members hparse
      cases h
      obtain ⟨⟨j, rest⟩, hj, hparse⟩ := exists_of_bind_eq_ok hparse
      simp only at hparse
      split at hparse
      · cases hparse
        exact readable_of_readValue hj
      · cases hparse
    · cases h

theorem isFinite_quantity? {key : String} {item : Json} {x : Float} (hitem : Readable depth item)
    (h : quantity? key item = some x) : x.isFinite = true := by
  obtain ⟨n, hn, rfl⟩ := Option.map_eq_some_iff.1 h
  obtain ⟨value, hvalue, hn⟩ := Option.bind_eq_some_iff.1 hn
  obtain ⟨d, hd⟩ := hitem.exists_get? hvalue
  exact (hd.canonical hn).isFinite_toFloat

theorem isFinite_anomalyScore {diagnostic : Diagnostic Float} {x : Float}
    (hp : Readable depth (.object payload.members))
    (hd : diagnostic ∈ payload.diagnostics options.segmentRule) (hx : diagnostic.anomalyScore = some x) :
    x.isFinite = true := by
  obtain ⟨item, hitem, hdiagnostic⟩ := List.mem_filterMap.1 hd
  cases hitems : payload.diagnosticItems? with
  | none =>
    rw [hitems] at hitem
    cases hitem
  | some items =>
    rw [hitems] at hitem
    obtain ⟨list, hlist, harray⟩ := Option.bind_eq_some_iff.1 hitems
    obtain ⟨d, hreadable⟩ := hp.exists_get? hlist
    obtain ⟨e, hreadable⟩ := hreadable.exists_item harray item hitem
    obtain ⟨text, -, hdiagnostic⟩ := Option.bind_eq_some_iff.1 hdiagnostic
    obtain ⟨s, -, hdiagnostic⟩ := Option.bind_eq_some_iff.1 hdiagnostic
    obtain ⟨property, -, hdiagnostic⟩ := Option.bind_eq_some_iff.1 hdiagnostic
    cases hdiagnostic
    exact isFinite_quantity? hreadable hx

theorem isFinite_score? {x : Float} (hp : Readable depth (.object payload.members))
    (h : payload.score? names options usable name = some x) : x.isFinite = true := by
  obtain ⟨diagnostic, hd, hx⟩ := List.mem_filterMap.1 (Entries.mem_of_last? h)
  obtain ⟨score, hscore, hx⟩ := Option.map_eq_some_iff.1 hx
  cases hx
  exact isFinite_anomalyScore hp (List.mem_of_mem_filter hd) hscore

theorem finite_scalar? {value : Scalar Float} (hp : Readable depth (.object payload.members))
    (h : payload.scalar? options name = some value) : value.Finite := by
  obtain ⟨member, hmember, hscalar⟩ := List.mem_filterMap.1 (Entries.mem_of_get? h)
  simp only at hscalar
  split at hscalar
  · obtain ⟨v, hv, hscalar⟩ := Option.map_eq_some_iff.1 hscalar
    cases hscalar
    obtain ⟨d, hreadable⟩ := hp.exists_member member hmember
    exact Scalar.finite_of_ofJson? hreadable hv
  · cases hscalar

/-- What a payload supplies is finite, its shares apart. -/
theorem finite_cell {type : ScalarType} (hp : Readable depth (.object payload.members))
    (hshare : ∀ share : Float, payload.share? names options usable name = some share → share.isFinite = true) :
    (payload.cell (α := Float) names options usable name type).Finite := by
  have hscalar : (((payload.scalar? options name).filter fun value => value.type = type).getD
      (Scalar.zero type) : Scalar Float).Finite := by
    cases hs : payload.scalar? (α := Float) options name with
    | none => exact Scalar.finite_zero type
    | some value =>
      rw [Option.filter_some]
      split
      · exact finite_scalar? hp hs
      · exact Scalar.finite_zero type
  unfold cell
  split
  · rename_i share hs
    exact hshare share hs
  · split
    · rename_i score hs
      exact isFinite_score? hp hs
    · exact hscalar

end Payload

/-! ### Flattened frames -/

namespace Frame

/-- Every share that a row gives a contribution column is finite. -/
def SharesFinite (frame : Frame Float) (names : NameMap) (options : Options) : Prop :=
  ∀ (position row : Nat) (source : Column Float) (cells : List String) (raw : String) (payload : Payload),
    frame.columns[position]? = some source → source.strings? = some cells → cells[row]? = some raw →
      Payload.ofText? raw = some payload → ∀ (name : String) (share : Float),
        payload.share? names options (frame.isUsable names options position cells) name = some share →
          share.isFinite = true

section
variable {frame : Frame Float} {names : NameMap} {options : Options} {position row : Nat}
  {source column : Column Float} {cells : List String} {raw : String} {payload : Payload}

theorem finite_of_mem_addedAt (h : frame.SharesFinite names options) (hs : frame.columns[position]? = some source)
    (hc : source.strings? = some cells) (hcol : column ∈ frame.addedAt names options position) :
    column.cells.Finite := by
  refine Column.finite_iff.2 fun row value hv => ?_
  have hr : row < frame.rowCount := by
    by_contra hr
    rw [get?_addedAt_eq_none hs hc hcol (Nat.le_of_not_lt hr)] at hv
    cases hv
  rw [get?_addedAt hs hc hcol hr] at hv
  cases hv
  split
  · exact Scalar.finite_zero _
  · rename_i payload hp
    obtain ⟨raw, hraw, hp⟩ := Option.bind_eq_some_iff.1 hp
    exact Payload.finite_cell (Payload.readable_of_ofText? hp) (h _ _ _ _ _ _ hs hc hraw hp column.name)

/-- The cells of a flattened frame are finite if and only if its shares are. -/
theorem finite_flatten_iff (hv : frame.validate = .ok ()) (hfinite : ∀ column ∈ frame.columns, column.cells.Finite) :
    (∀ column ∈ (frame.flatten names options).value.columns, column.cells.Finite) ↔
      frame.SharesFinite names options := by
  constructor
  -- a share stands in a cell of its contribution column
  · intro h position row source cells raw payload hs hc hraw hp name share hshare
    obtain ⟨column, hcol, rfl⟩ := exists_column_of_share? hs hc hraw hp (Option.isSome_of_mem hshare)
    have hadded := (addedAt_sublist (List.getElem?_eq_some_iff.1 hs).1).subset hcol
    have hcell := get?_of_share? hs hc hraw hp hcol (lt_rowCount hv hs hc hraw) hshare
    exact Column.finite_iff.1 (h column hadded) row _ hcell
  · intro h column hcolumn
    rw [columns_flatten, addedBefore_eq_flatMap] at hcolumn
    rcases List.mem_append.1 hcolumn with hcolumn | hcolumn
    · exact hfinite column hcolumn
    · obtain ⟨position, -, hcol⟩ := List.mem_flatMap.1 hcolumn
      cases hcells : frame.columns[position]?.bind Column.strings? with
      | none =>
        rw [addedAt_eq_nil hcells] at hcol
        cases hcol
      | some cells =>
        obtain ⟨source, hs, hc⟩ := Option.bind_eq_some_iff.1 hcells
        exact finite_of_mem_addedAt h hs hc hcol

end

/-- The flattened frames of a file that was read can be written and read again if and only if all shares are
finite. -/
theorem exists_parseFile_flattenAll {σ : Type} (describer : Describer σ) (options : Options) (assetId : String)
    (state : σ) {content : ByteArray} {frames : List (Frame Float)} (h : parseFile content = .ok frames) :
    (∃ again, parseFile (renderFile ((flattenAll describer options assetId frames).run state).value.1).toUTF8 =
        .ok again) ↔
      ∀ frame ∈ frames, frame.SharesFinite ((describer.nameMap assetId).run state).value.1 options := by
  obtain ⟨hread, hvalid⟩ := parseFile_eq_ok.1 h
  have hsound := sound_of_readList hread
  have hvalid := validateAll_eq_ok.1 hvalid
  rw [value_flattenAll, exists_parseFile_iff, List.forall_mem_map]
  · exact forall₂_congr fun frame hframe => finite_flatten_iff (hvalid frame hframe) (hsound frame hframe).finite
  · rw [List.forall_mem_map]
    intro frame hframe value hvalue
    rw [(extends_flatten frame _ options).metadata] at hvalue
    exact (hsound frame hframe).readable value hvalue
  · rw [List.forall_mem_map]
    exact fun frame hframe => (extends_flatten frame _ options).validate (hvalid frame hframe)

theorem readable_of_metadata_none {frame : Frame Float} (h : frame.metadata = none) :
    ∀ f ∈ [frame], ∀ value ∈ f.metadata, Readable 125 value := by
  rw [List.forall_mem_singleton, h]
  nofun

/-- A file of one frame without metadata is read again if its columns form a table and its cells are finite. -/
theorem exists_parseFile_singleton {frame : Frame Float} (hmetadata : frame.metadata = none)
    (hv : frame.validate = .ok ()) : (∃ again, parseFile (renderFile [frame]).toUTF8 = .ok again) ↔
      ∀ column ∈ frame.columns, column.cells.Finite := by
  rw [exists_parseFile_iff (readable_of_metadata_none hmetadata), List.forall_mem_singleton]
  rwa [List.forall_mem_singleton]

/-- The sample with the columns that it gives rise to. -/
def flatSample : Frame Float :=
  ⟨"f", [⟨"value", .string sampleCells⟩, ⟨"contrib_a", .float64 [75.0, 0.0]⟩, ⟨"contrib_b", .float64 [25.0, 0.0]⟩],
    none⟩

theorem flattenAll_sample :
    ((flattenAll (Catalog.describer {}) {} "" [sample Float]).run ()).value.1 = [flatSample] := by
  decide +kernel

theorem exists_parseFile_flattenAll_sample :
    let content := (renderFile [sample Float]).toUTF8
    let describer := Catalog.describer {}
    parseFile content = .ok [sample Float] ∧
      (∃ again, parseFile (renderFile ((flattenAll describer {} "" [sample Float]).run ()).value.1).toUTF8 =
        .ok again) ∧
      (sample Float).SharesFinite ((describer.nameMap "").run ()).value.1 {} := by
  intro content describer
  have hread : parseFile content = .ok [sample Float] := (parseFile_toUTF8 (readable_of_metadata_none rfl)).2 ⟨rfl, rfl⟩
  have hagain : ∃ again, parseFile (renderFile ((flattenAll describer {} "" [sample Float]).run ()).value.1).toUTF8 =
      .ok again := by
    rw [flattenAll_sample, exists_parseFile_singleton rfl rfl]
    unfold Cells.Finite
    decide +kernel
  exact ⟨hread, hagain, (exists_parseFile_flattenAll describer {} "" () hread).1 hagain _ (List.mem_singleton_self _)⟩

/-- Two contributions that cancel and one that is left. -/
def cancellingCell : String :=
  "\x7b\"diagnostics\":[\x7b\"name\":\"r\\\\a\",\"value\":1e308\x7d," ++
    "\x7b\"name\":\"r\\\\b\",\"value\":-1e308\x7d,\x7b\"name\":\"r\\\\c\",\"value\":1\x7d]\x7d"

def cancelling : Frame Float := ⟨"f", [⟨"value", .string [cancellingCell]⟩], none⟩

def flatCancelling : Frame Float :=
  ⟨"f", [⟨"value", .string [cancellingCell]⟩, ⟨"contrib_a", .float64 [1.0 / 0.0]⟩,
    ⟨"contrib_b", .float64 [-1.0 / 0.0]⟩, ⟨"contrib_c", .float64 [100.0]⟩], none⟩

/-- Flattened frames need not be readable: as percentages of what is left, contributions that cancel are
infinite in double arithmetic. -/
theorem parseFile_flattenAll_fails :
    let flattened := ((flattenAll (Catalog.describer {}) {} "" [cancelling]).run ()).value.1
    parseFile (renderFile [cancelling]).toUTF8 = .ok [cancelling] ∧ flattened = [flatCancelling] ∧
      ∀ again, parseFile (renderFile flattened).toUTF8 ≠ .ok again := by
  intro flattened
  have hflat : flattened = [flatCancelling] := by decide +kernel
  refine ⟨(parseFile_toUTF8 (readable_of_metadata_none rfl)).2 ⟨rfl, rfl⟩, hflat, fun again hagain => ?_⟩
  rw [hflat] at hagain
  have hfinite := (exists_parseFile_singleton rfl rfl).1 ⟨again, hagain⟩
  unfold Cells.Finite at hfinite
  revert hfinite
  decide +kernel

end Frame

end Unnest
