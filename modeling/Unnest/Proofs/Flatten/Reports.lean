import Unnest.Proofs.Flatten.Cells
import Unnest.Proofs.Reported

/-!
# What flattening reports

The events of flattening a frame are told apart by the column that it deals with when it reports them
(`Frame.reportsAt`), and at the end there is at most one more (`Frame.events_flatten`). While it deals with a
text column, flattening first reports what is wrong with its cells, then what the changes to its derived
columns report (`Frame.reportsAt_eq`). The names that it refuses are the names in use that the rows ask for,
each once, in the order in which they are first asked for (`Frame.refusals_flatten`).
-/

namespace Unnest
variable {α : Type} [Quantity α]

namespace Payload
variable {frame column : String} {expected : List String} {row : Nat}

omit [Quantity α] in
/-- Reading a cell reports neither refused names nor dropped values. -/
theorem not_refusal_ofCell {raw : String} {event : Event}
    (h : event ∈ (ofCell frame column expected row raw).events) :
    event.isRefusal = false ∧ event.isDrop = false := by
  unfold ofCell at h
  split at h
  · cases h
  · cases hp : decode raw with
    | ok payload =>
      simp only [hp, Traced.events_bind, Traced.events_pure, List.append_nil] at h
      generalize payload.missingKeys expected = keys at h
      induction keys with
      | nil => cases h
      | cons key rest ih =>
        rcases List.mem_cons.1 h with rfl | h
        · exact ⟨rfl, rfl⟩
        · exact ih h
    | error error =>
      simp only [hp] at h
      split at h
      · exact List.mem_singleton.1 h ▸ ⟨rfl, rfl⟩
      · exact List.mem_singleton.1 h ▸ ⟨rfl, rfl⟩

omit [Quantity α] in
theorem not_refusal_ofCells {cells : List String} {event : Event}
    (h : event ∈ (ofCells frame column expected row cells).events) :
    event.isRefusal = false ∧ event.isDrop = false := by
  induction cells generalizing row with
  | nil => cases h
  | cons raw rest ih =>
    rw [ofCells, Traced.events_bind, Traced.events_bind, Traced.events_pure, List.append_nil] at h
    exact (List.mem_append.1 h).elim not_refusal_ofCell ih

end Payload

namespace Frame
variable (frame : Frame α) (names : NameMap) (options : Options)

/-- What flattening has added when it comes to the column at a position. -/
def additionsBefore (position : Nat) : Additions α :=
  ((frame.columns.take position).foldlM (frame.addSource names options) {}).value

/-- What flattening reports while it deals with the column at a position. -/
def reportsAt (position : Nat) : List Event :=
  frame.columns[position]?.elim [] fun source =>
    (frame.addSource names options (frame.additionsBefore names options position) source).events

theorem events_addSources (position : Nat) :
    ((frame.columns.take position).foldlM (frame.addSource names options) {}).events =
      (List.range position).flatMap (frame.reportsAt names options) := by
  induction position with
  | zero => simp
  | succ position ih =>
    rw [List.take_add_one, List.foldlM_append, Traced.events_bind, ih, List.range_succ, List.flatMap_append,
      List.flatMap_singleton, reportsAt]
    cases frame.columns[position]? with
    | none => rfl
    | some source => simp [additionsBefore]

/-- The events of flattening, column by column; whether there was a payload is reported at the end. -/
theorem events_flatten : (frame.flatten names options).events =
    (List.range frame.columns.length).flatMap (frame.reportsAt names options) ++
      if (frame.additionsBefore names options frame.columns.length).parsed then
        [.frameParsed frame.name (frame.flatten names options).value.columns.length]
      else [] := by
  have hevents := frame.events_addSources names options frame.columns.length
  rw [List.take_length] at hevents
  rw [columns_flatten, addedBefore, additionsBefore, List.take_length, flatten, Traced.events_bind, hevents]
  split <;> rfl

theorem filter_events_flatten {p : Event → Bool} (h : ∀ name columns, p (.frameParsed name columns) = false) :
    (frame.flatten names options).events.filter p =
      (List.range frame.columns.length).flatMap fun position =>
        (frame.reportsAt names options position).filter p := by
  rw [events_flatten, List.filter_append, List.filter_flatMap]
  split
  · simp [h]
  · simp

variable {frame names options} {position : Nat} {source : Column α} {cells : List String}

theorem reportsAt_eq_nil (h : frame.columns[position]?.bind Column.strings? = none) :
    frame.reportsAt names options position = [] := by
  unfold reportsAt
  cases hs : frame.columns[position]? with
  | none => rfl
  | some source =>
    rw [hs, Option.bind_some] at h
    simp [addSource, h]

/-- What is reported for a text column: first what is wrong with its cells, then what changes report. -/
theorem reportsAt_eq (hs : frame.columns[position]? = some source) (hc : source.strings? = some cells) :
    frame.reportsAt names options position =
      (Payload.ofCells frame.name source.name options.expectedKeys 0 cells).events ++
        ((frame.blank names options position source).performAll (Payload.columnChanges names options
          (frame.inUse names options position) (cells.map Payload.ofText?))).events := by
  rw [reportsAt, hs, Option.elim_some, addSource, hc]
  simp only [Traced.events_bind, Payload.value_ofCells]
  congr 1
  split
  · rename_i h
    rw [Payload.columnChanges_eq_nil h]
    rfl
  · rw [Traced.events_bind, Derived.ofPayloads_eq_performAll rfl, Traced.events_map, Traced.events_pure,
      List.append_nil]
    rfl

theorem filter_isRefusal_reportsAt (hs : frame.columns[position]? = some source)
    (hc : source.strings? = some cells) : (frame.reportsAt names options position).filter Event.isRefusal =
      ((Entries.keys (Payload.candidates α names options (frame.inUse names options position)
        (cells.map Payload.ofText?))).filter (· ∈ frame.inUse names options position)).eraseDups.map
          (.nameInUse frame.name source.name) := by
  have hreading : (Payload.ofCells frame.name source.name options.expectedKeys 0 cells).events.filter
      Event.isRefusal = [] :=
    List.filter_eq_nil_iff.2 fun event he => by simp [(Payload.not_refusal_ofCells he).1]
  have hkeys := fun l : List (String × ScalarType) => Entries.keys_filter
    (fun name => decide (name ∈ frame.inUse names options position)) l
  rw [reportsAt_eq hs hc, List.filter_append, hreading, List.nil_append,
    (Derived.refusals_performAll (Derived.Inv.of_columns_eq_nil rfl) rfl).2]
  show ((Entries.keys _).filter (· ∈ frame.inUse names options position)).eraseDups.map _ = _
  rw [← hkeys, ← Entries.keys_firsts, Payload.firsts_requests_columnChanges
    fun name => name ∈ frame.inUse names options position, Entries.keys_firsts, hkeys]
  rfl

/-- The names that the text column at a position asks for: its scalar keys, the contribution columns of its
diagnostics, and the anomaly columns of those that have a score and whose contribution column can be had. -/
def AsksFor (frame : Frame α) (names : NameMap) (options : Options) (position : Nat) (cells : List String)
    (name : String) : Prop :=
  let payloads := cells.map Payload.ofText?
  let schema := Schema.discover α payloads options.excludedKeys
  name ∈ Entries.keys schema ∨
    ∃ payload, some payload ∈ payloads ∧ ∃ diagnostic ∈ payload.diagnostics (α := α) options.segmentRule,
      name = diagnostic.contributionColumn names options ∨
        diagnostic.anomalyScore.isSome ∧ name = diagnostic.anomalyColumn names options ∧
          diagnostic.contributionColumn names options ∉ frame.inUse names options position ∧
          ∀ type, (diagnostic.contributionColumn names options, type) ∈ schema → type = .float64

theorem asksFor_iff {name : String} : frame.AsksFor names options position cells name ↔
    name ∈ Entries.keys (Payload.candidates α names options (frame.inUse names options position)
      (cells.map Payload.ofText?)) := by
  rw [Payload.mem_keys_candidates, AsksFor]
  simp only [Schema.discover_eq_firsts, Entries.mem_keys_firsts, Diagnostic.mem_fields, Prod.mk.injEq, and_true]
  refine or_congr_right (exists_congr fun payload => and_congr_right fun _ => exists_congr fun diagnostic =>
    and_congr_right fun _ => or_congr_right ?_)
  rw [Schema.isUsable, Bool.and_eq_true, decide_eq_true_iff]
  have hfirst : (∀ type, (diagnostic.contributionColumn names options, type) ∈ Entries.firsts
        (Schema.occurrences α (cells.map Payload.ofText?) options.excludedKeys) → type = .float64) ↔
      (Entries.get? (Schema.occurrences α (cells.map Payload.ofText?) options.excludedKeys)
        (diagnostic.contributionColumn names options)).all (· = .float64) := by
    simp only [Entries.mem_iff_get? (Entries.nodup_firsts _), Entries.get?_firsts, Option.all_eq_true,
      decide_eq_true_iff]
  rw [hfirst]
  tauto

/-- While it deals with a text column, flattening refuses the names in use that the column asks for, and
reports each of them once, in the order in which they are first asked for. -/
theorem refusals_flatten (frame : Frame α) (names : NameMap) (options : Options) :
    (frame.flatten names options).events.filter Event.isRefusal =
        ((List.range frame.columns.length).flatMap fun position =>
          (frame.reportsAt names options position).filter Event.isRefusal) ∧
      ∀ position source cells, frame.columns[position]? = some source → source.strings? = some cells →
        ∃ refused : List String,
          (frame.reportsAt names options position).filter Event.isRefusal =
              refused.map (.nameInUse frame.name source.name) ∧
            refused.Nodup ∧
            refused = ((Entries.keys (Payload.candidates α names options (frame.inUse names options position)
              (cells.map Payload.ofText?))).filter (· ∈ frame.inUse names options position)).eraseDups ∧
            ∀ name, name ∈ refused ↔
              name ∈ frame.inUse names options position ∧ frame.AsksFor names options position cells name := by
  refine ⟨filter_events_flatten frame names options fun _ _ => rfl, fun position source cells hs hc =>
    ⟨_, filter_isRefusal_reportsAt hs hc, Entries.nodup_eraseDups _, rfl, fun name => ?_⟩⟩
  rw [List.mem_eraseDups, List.mem_filter, decide_eq_true_iff, asksFor_iff, and_comm]

/-- A cell that asks for a name twice, as a scalar and for a diagnostic. -/
def repeatingCell : String :=
  "\x7b\"contrib_a\":1,\"diagnostics\":[\x7b\"name\":\"r\\\\a\",\"value\":3\x7d]\x7d"

/-- Two rows that ask for a name in use. -/
def repeated : Frame Float :=
  ⟨"f", [⟨"contrib_a", .float64 [7.0, 7.0]⟩, ⟨"value", .string [repeatingCell, repeatingCell]⟩], none⟩

theorem refusals_flatten_repeated :
    (repeated.reportsAt {} {} 1).filter Event.isRefusal = [.nameInUse "f" "value" "contrib_a"] := by
  obtain ⟨refused, hreports, -, hrefused, -⟩ := (refusals_flatten repeated {} {}).2 1
    ⟨"value", .string [repeatingCell, repeatingCell]⟩ _ rfl rfl
  rw [hreports, hrefused]
  decide +kernel

end Frame

end Unnest
