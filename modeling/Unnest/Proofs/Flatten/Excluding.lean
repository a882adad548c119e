import Unnest.Proofs.Flatten.Extends
import Unnest.Proofs.Flatten.Filled

/-!
# Excluding a key

Excluding one more key takes away the added column of that name, if there is one, and nothing else
(`Frame.flatten_exclude`). The key must not be the name of a contribution or anomaly column: such a column
would stay, and a scalar of another type under that name decides whether it can be had.

Away from the excluded key the two runs see the same names in use and the same scalars, and so they ask for the
same fields and supply the same values.
-/

namespace Unnest
variable {α : Type} [Quantity α] {names : NameMap} {options : Options} {key : String}

def Options.exclude (options : Options) (key : String) : Options :=
  { options with excludedKeys := options.excludedKeys ++ [key] }

namespace Diagnostic
omit [Quantity α]

@[simp] theorem contributionColumn_exclude (diagnostic : Diagnostic α) :
    diagnostic.contributionColumn names (options.exclude key) = diagnostic.contributionColumn names options := rfl

@[simp] theorem anomalyColumn_exclude (diagnostic : Diagnostic α) :
    diagnostic.anomalyColumn names (options.exclude key) = diagnostic.anomalyColumn names options := rfl

end Diagnostic

namespace Payload
variable {payload : Payload} {payloads : List (Option Payload)} {inUse inUse' : List String}

theorem isPromoted_append (excluded : List String) (name : String) :
    isPromoted (excluded ++ [key]) name = (decide (name ≠ key) && isPromoted excluded name) := by
  by_cases hn : name = key <;> simp [isPromoted, hn]

theorem scalars_exclude : payload.scalars (α := α) (options.exclude key).excludedKeys =
    (payload.scalars options.excludedKeys).filter fun entry => entry.1 ≠ key := by
  rw [scalars, scalars, List.filter_filterMap]
  refine List.filterMap_congr fun member _ => ?_
  obtain ⟨name, value⟩ := member
  show (if isPromoted (options.excludedKeys ++ [key]) name then _ else _) = _
  rw [isPromoted_append]
  cases hp : isPromoted options.excludedKeys name with
  | false => simp [hp]
  | true =>
    by_cases hn : name = key
    · subst hn
      cases hv : Scalar.ofJson? (α := α) value <;> simp [hp, hv, Option.filter]
    · cases hv : Scalar.ofJson? (α := α) value <;> simp [hn, hp, hv, Option.filter]

theorem occurrences_exclude : Schema.occurrences α payloads (options.exclude key).excludedKeys =
    (Schema.occurrences α payloads options.excludedKeys).filter fun field => field.1 ≠ key := by
  unfold Schema.occurrences
  rw [List.filter_flatMap]
  refine List.flatMap_congr fun row _ => ?_
  cases row with
  | none => rfl
  | some payload =>
    rw [Option.elim_some, Option.elim_some, scalarFields, scalarFields, scalars_exclude, List.filter_map]
    rfl

theorem isUsable_exclude {name : String} (hname : name ≠ key) (huse : name ∈ inUse' ↔ name ∈ inUse) :
    isUsable α (options.exclude key) inUse' payloads name = isUsable α options inUse payloads name := by
  rw [isUsable, isUsable, Schema.isUsable, Schema.isUsable, occurrences_exclude,
    Entries.get?_filter fun name => name ≠ key]
  simp [hname, huse]

section
variable (huse : ∀ name ≠ key, (name ∈ inUse' ↔ name ∈ inUse))
  (hkey : ∀ diagnostic ∈ allDiagnostics (α := α) options payloads,
    diagnostic.contributionColumn names options ≠ key ∧ diagnostic.anomalyColumn names options ≠ key)
include huse hkey

theorem requested_exclude : requested α names (options.exclude key) inUse' payloads =
    requested α names options inUse payloads := by
  refine List.flatMap_congr fun diagnostic hd => ?_
  have husable : isUsable α (options.exclude key) inUse' payloads (diagnostic.contributionColumn names options) =
      isUsable α options inUse payloads (diagnostic.contributionColumn names options) :=
    isUsable_exclude (hkey diagnostic hd).1 (huse _ (hkey diagnostic hd).1)
  rw [Diagnostic.fields, Diagnostic.contributionColumn_exclude, Diagnostic.anomalyColumn_exclude, husable]
  rfl

theorem newFields_exclude : newFields α names (options.exclude key) inUse' payloads =
    (newFields α names options inUse payloads).filter fun field => field.1 ≠ key := by
  -- diagnostics do not ask for the key
  have hrequested : (requested α names options inUse payloads).filter (fun field => field.1 ≠ key) =
      requested α names options inUse payloads := by
    refine List.filter_eq_self.2 fun field hf => decide_eq_true ?_
    obtain ⟨diagnostic, hd, hf⟩ := List.mem_flatMap.1 hf
    rcases Diagnostic.mem_fields.1 hf with rfl | ⟨-, -, rfl⟩
    · exact (hkey diagnostic hd).1
    · exact (hkey diagnostic hd).2
  have hcandidates : candidates α names (options.exclude key) inUse' payloads =
      (candidates α names options inUse payloads).filter fun field => field.1 ≠ key := by
    rw [candidates_eq_append, candidates_eq_append, List.filter_append, hrequested, occurrences_exclude,
      requested_exclude huse hkey]
  rw [newFields, newFields, hcandidates, ← Entries.firsts_filter fun name => name ≠ key, List.filter_filter,
    List.filter_filter]
  refine congrArg Entries.firsts (List.filter_congr fun field _ => ?_)
  by_cases hf : field.1 = key
  · simp [hf]
  · simp [hf, huse field.1 hf]

theorem supplied_exclude {name : String} (hname : name ≠ key) (type : ScalarType) :
    supplied (α := α) names (options.exclude key) inUse' payloads name type =
      supplied names options inUse payloads name type := by
  funext row
  refine supplied_congr rfl fun payload hmem => ?_
  have hscalar : payload.scalar? (α := α) (options.exclude key) name = payload.scalar? options name := by
    rw [scalar?, scalars_exclude, Entries.get?_filter fun name => name ≠ key, if_pos (decide_eq_true hname)]
    rfl
  -- the excluded keys only matter for the scalar
  have hcell : payload.cell (α := α) names (options.exclude key) (isUsable α (options.exclude key) inUse' payloads)
        name type = payload.cell names options (isUsable α (options.exclude key) inUse' payloads) name type := by
    unfold cell
    rw [hscalar]
    rfl
  refine hcell.trans (cell_congr fun diagnostic hd => ?_)
  have hne := (hkey diagnostic (mem_allDiagnostics hmem hd)).1
  exact isUsable_exclude hne (huse _ hne)

theorem filledColumns_exclude (rows : Nat) :
    filledColumns (α := α) names (options.exclude key) inUse' payloads rows =
      (filledColumns names options inUse payloads rows).filter fun column => column.name ≠ key := by
  rw [filter_filledColumns rows fun name => name ≠ key, filledColumns, newFields_exclude huse hkey]
  refine List.map_congr_left fun field hf => ?_
  have hne : field.1 ≠ key := of_decide_eq_true (List.mem_filter.1 hf).2
  rw [fill, supplied_exclude huse hkey hne]
  rfl

end

end Payload

namespace Frame
variable {frame : Frame α}

theorem addedBefore_exclude (h : key ∉ frame.diagnosticNames names options) (position : Nat) :
    frame.addedBefore names (options.exclude key) position =
      (frame.addedBefore names options position).filter fun column => column.name ≠ key := by
  induction position with
  | zero => rfl
  | succ position ih =>
    -- by what has been added so far, the names in use differ in the key at most
    have huse : ∀ name ≠ key, (name ∈ frame.inUse names (options.exclude key) position ↔
        name ∈ frame.inUse names options position) := by
      intro name hname
      rw [inUse, inUse, ih, List.mem_append, List.mem_append]
      refine or_congr_right ⟨fun hm => (List.filter_sublist.map Column.name).subset hm, fun hm => ?_⟩
      obtain ⟨column, hc, rfl⟩ := List.mem_map.1 hm
      exact List.mem_map_of_mem (List.mem_filter.2 ⟨hc, decide_eq_true hname⟩)
    have hkey : ∀ diagnostic ∈ Payload.allDiagnostics (α := α) options (frame.payloadsAt position),
        diagnostic.contributionColumn names options ≠ key ∧ diagnostic.anomalyColumn names options ≠ key := by
      intro diagnostic hd
      have hd := mem_diagnostics hd
      exact ⟨fun he => h (he ▸ contributionColumn_mem hd), fun he => h (he ▸ anomalyColumn_mem hd)⟩
    rw [addedBefore_succ_eq, addedBefore_succ_eq, List.filter_append, ih, addedAt_eq_filledColumns,
      addedAt_eq_filledColumns, Payload.filledColumns_exclude huse hkey]

/-- Excluding a key that names no contribution or anomaly column takes away the added column of that name. -/
theorem flatten_exclude (frame : Frame α) (names : NameMap) (options : Options) (key : String)
    (h : key ∉ frame.diagnosticNames names options) :
    (frame.flatten names (options.exclude key)).value =
      { (frame.flatten names options).value with
        columns := frame.columns ++ (frame.added names options).filter fun column => column.name ≠ key } := by
  have hextends := extends_flatten frame names options
  have hextends' := extends_flatten frame names (options.exclude key)
  have hcolumns : (frame.flatten names (options.exclude key)).value.columns =
      frame.columns ++ (frame.added names options).filter fun column => column.name ≠ key := by
    rw [columns_flatten, addedBefore_exclude h, added, columns_flatten, List.drop_left]
  show _ = Frame.mk (frame.flatten names options).value.name _ (frame.flatten names options).value.metadata
  rw [← hcolumns, hextends.name, hextends.metadata, ← hextends'.name, ← hextends'.metadata]

/-- A row with a note and a score, and one with a contribution. -/
def reviewCells : List String :=
  ["\x7b\"note\":\"x\",\"score\":2\x7d", "\x7b\"diagnostics\":[\x7b\"name\":\"r\\\\a\",\"value\":3\x7d]\x7d"]

def review (α : Type) : Frame α := ⟨"f", [⟨"value", .string reviewCells⟩], none⟩

theorem flatten_exclude_note :
    "note" ∉ (review Float).diagnosticNames {} {} ∧
      ((review Float).flatten {} (Options.exclude {} "note")).value.columns = (review Float).columns ++
        [⟨"score", .float64 [2.0, 0.0]⟩, ⟨"contrib_a", .float64 [0.0, 100.0]⟩] := by
  have h : "note" ∉ (review Float).diagnosticNames {} {} := by decide +kernel
  have hadded : (review Float).added {} {} = [⟨"note", .string ["x", ""]⟩, ⟨"score", .float64 [2.0, 0.0]⟩,
      ⟨"contrib_a", .float64 [0.0, 100.0]⟩] := by decide +kernel
  refine ⟨h, ?_⟩
  rw [flatten_exclude (review Float) {} {} "note" h, hadded]
  rfl

end Frame

end Unnest
