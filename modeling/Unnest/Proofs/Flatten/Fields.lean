import Unnest.Proofs.Flatten.Sources

/-!
# The fields that flattening adds

Which columns flattening adds, of which types and in which order, can be read off the frame, the name map
and the options alone. The rows of a text column ask for fields (`Payload.candidates`): first for all their
scalars, then for the columns of all their diagnostics. Of these the text column gets those whose names are
not in use, and of several with one name the first (`Column.newFields`). Its names are in use for the
columns after it (`Frame.newFields`).
-/

namespace Unnest
variable {α : Type} [Quantity α]

variable (α) in
/-- The fields that the rows of a text column ask for. Rows without a payload ask for none. -/
def Payload.candidates (names : NameMap) (options : Options) (inUse : List String)
    (payloads : List (Option Payload)) : List (String × ScalarType) :=
  let scalars := Schema.occurrences α payloads options.excludedKeys
  scalars ++ payloads.flatMap fun payload =>
    payload.elim [] (Payload.diagnosticFields α names options (Schema.isUsable inUse scalars))

/-- The fields that a column gives rise to. -/
def Column.newFields (names : NameMap) (options : Options) (inUse : List String) (source : Column α) :
    List (String × ScalarType) :=
  match source.strings? with
  | none => []
  | some cells =>
    Entries.firsts ((Payload.candidates α names options inUse (cells.map Payload.ofText?)).filter
      fun field => field.1 ∉ inUse)

/-- The fields that columns give rise to one after another. -/
def Frame.newFields (names : NameMap) (options : Options) :
    (inUse : List String) → List (Column α) → List (String × ScalarType)
  | _, [] => []
  | inUse, source :: rest =>
    let fields := source.newFields names options inUse
    fields ++ newFields names options (inUse ++ Entries.keys fields) rest

namespace Payload
variable {names : NameMap} {options : Options} {inUse : List String} {payloads : List (Option Payload)}
  {name : String}

theorem requests_columnChanges :
    Change.requests (columnChanges (α := α) names options inUse payloads) =
      Entries.firsts (Schema.occurrences α payloads options.excludedKeys) ++
        payloads.flatMap fun payload => payload.elim [] (diagnosticFields α names options
          (Schema.isUsable inUse (Schema.occurrences α payloads options.excludedKeys))) := by
  rw [columnChanges, Change.requests_append, Change.requests_map_require, requests_rowsChanges,
    Schema.discover_eq_firsts]

/-- That the schema leaves out repeated scalars does not matter. -/
theorem firsts_requests_columnChanges (p : String → Bool) : Entries.firsts
    ((Change.requests (columnChanges (α := α) names options inUse payloads)).filter fun field => p field.1) =
    Entries.firsts ((candidates α names options inUse payloads).filter fun field => p field.1) := by
  rw [requests_columnChanges, Entries.firsts_filter p, Entries.firsts_firsts_append, ← Entries.firsts_filter p]
  rfl

theorem mem_keys_candidates : name ∈ Entries.keys (candidates α names options inUse payloads) ↔
    name ∈ Entries.keys (Schema.occurrences α payloads options.excludedKeys) ∨
      ∃ payload, some payload ∈ payloads ∧
        ∃ diagnostic ∈ payload.diagnostics (α := α) options.segmentRule,
          (name, .float64) ∈ diagnostic.fields names options
            (Schema.isUsable inUse (Schema.occurrences α payloads options.excludedKeys)) := by
  rw [candidates, Entries.keys_append, List.mem_append]
  refine or_congr_right ⟨fun h => ?_, ?_⟩
  · obtain ⟨⟨_, type⟩, hf, rfl⟩ := List.mem_map.1 h
    obtain ⟨payload, hp, hf⟩ := List.mem_flatMap.1 hf
    cases payload with
    | none => exact absurd hf List.not_mem_nil
    | some payload =>
      obtain ⟨diagnostic, hd, hf⟩ := List.mem_flatMap.1 hf
      obtain rfl : type = .float64 := Diagnostic.type_of_mem_fields hf
      exact ⟨payload, hp, diagnostic, hd, hf⟩
  · rintro ⟨payload, hp, diagnostic, hd, hf⟩
    have hfield : (name, .float64) ∈ payload.diagnosticFields α names options
        (Schema.isUsable inUse (Schema.occurrences α payloads options.excludedKeys)) :=
      List.mem_flatMap.2 ⟨diagnostic, hd, hf⟩
    refine List.mem_map.2 ⟨(name, .float64), ?_, rfl⟩
    exact List.mem_flatMap.2 ⟨some payload, hp, hfield⟩

end Payload

namespace Frame
variable {frame : Frame α} {names : NameMap} {options : Options}

theorem fields_derivedAt {position : Nat} {source : Column α} {cells : List String}
    (hc : source.strings? = some cells) : (frame.derivedAt names options position source cells).fields =
      source.newFields names options (frame.inUse names options position) := by
  have hblank : (frame.blank names options position source).fields = [] := rfl
  have htaken : (frame.blank names options position source).taken = frame.inUse names options position := rfl
  rw [derivedAt, Derived.fields_performAll (Derived.Inv.of_columns_eq_nil rfl), hblank, htaken,
    List.nil_append, Payload.firsts_requests_columnChanges fun name => name ∉ frame.inUse names options position,
    Column.newFields, hc]

theorem newFields_append_singleton (inUse : List String) (columns : List (Column α)) (source : Column α) :
    newFields names options inUse (columns ++ [source]) = newFields names options inUse columns ++
      source.newFields names options (inUse ++ Entries.keys (newFields names options inUse columns)) := by
  induction columns generalizing inUse with
  | nil => simp [newFields]
  | cons column rest ih =>
    rw [List.cons_append, newFields, ih, newFields, Entries.keys_append, List.append_assoc,
      List.append_assoc]

theorem fields_addedBefore (position : Nat) :
    (frame.addedBefore names options position).map (fun column => (column.name, column.type)) =
      newFields names options frame.columnNames (frame.columns.take position) := by
  induction position with
  | zero => simp [addedBefore, newFields]
  | succ position ih =>
    -- the names in use at a position are those of the fields added before it
    have hkeys : Entries.keys (newFields names options frame.columnNames (frame.columns.take position)) =
        (frame.addedBefore names options position).map Column.name := by
      rw [← ih, Entries.keys, List.map_map]
      rfl
    rw [addedBefore_succ, List.map_append, ih, List.take_add_one]
    cases frame.columns[position]? with
    | none => simp
    | some source =>
      rw [Option.toList_some, newFields_append_singleton, hkeys]
      congr 1
      cases hc : source.strings? with
      | none => simp [Column.newFields, hc]
      | some cells =>
        simp only [hc]
        exact fields_derivedAt hc

section
variable {position : Nat} {source : Column α} {cells : List String}

theorem keys_fields_derivedAt (hs : frame.columns[position]? = some source)
    (hc : source.strings? = some cells) :
    Entries.keys (frame.derivedAt names options position source cells).fields =
      (frame.addedAt names options position).map Column.name := by
  rw [Derived.keys_fields, addedAt_eq hs hc]

theorem nodup_addedAt (hs : frame.columns[position]? = some source) (hc : source.strings? = some cells) :
    ((frame.addedAt names options position).map Column.name).Nodup :=
  keys_fields_derivedAt hs hc ▸ (inv_derivedAt position source cells).nodup

/-- The names of the added columns are those that rows ask for and that are not in use. -/
theorem mem_names_addedAt (hs : frame.columns[position]? = some source) (hc : source.strings? = some cells)
    {name : String} : name ∈ (frame.addedAt names options position).map Column.name ↔
      name ∈ Entries.keys (Payload.candidates α names options (frame.inUse names options position)
        (cells.map Payload.ofText?)) ∧ name ∉ frame.inUse names options position := by
  rw [← keys_fields_derivedAt hs hc, fields_derivedAt hc, Column.newFields, hc, Entries.mem_keys_firsts,
    Entries.keys_filter fun name => name ∉ frame.inUse names options position, List.mem_filter,
    decide_eq_true_iff]

end

/-- Exactly which columns flattening adds, typed how, in which order. -/
theorem fields_flatten (frame : Frame α) (names : NameMap) (options : Options) :
    ∃ added, (frame.flatten names options).value.columns = frame.columns ++ added ∧
      added.map (fun column => (column.name, column.type)) =
        newFields names options frame.columnNames frame.columns := by
  refine ⟨_, columns_flatten, ?_⟩
  rw [fields_addedBefore, List.take_length]

end Frame

end Unnest
