import Unnest.Proofs.Flatten.Fields
import Unnest.Proofs.Flatten.Writes

/-!
# The cells that flattening adds

A cell of a derived column is the zero value of the column's type if its row holds no payload, and
otherwise what the payload supplies for the column (`Payload.cell`): its share of the contributions, or
else the last anomaly score, or else the scalar. Diagnostics count here if their contribution column can be
had, which is a matter of the names in use and of the scalar keys of the text column (`Frame.isUsable`).
-/

namespace Unnest
variable {α : Type} [Quantity α] {names : NameMap} {options : Options}

namespace Payload
variable {inUse : List String} {payloads : List (Option Payload)} {name : String} {type : ScalarType}

/-- Under a usable name there is no column but a numeric one. -/
theorem type_of_isUsable
    (hu : Schema.isUsable inUse (Schema.occurrences α payloads options.excludedKeys) name)
    (h : Entries.get? (candidates α names options inUse payloads) name = some type) : type = .float64 := by
  rw [Schema.isUsable, Bool.and_eq_true] at hu
  rw [candidates, Entries.get?_append] at h
  cases ho : Entries.get? (Schema.occurrences α payloads options.excludedKeys) name with
  | some first =>
    rw [ho, Option.some_or, Option.some_inj] at h
    rw [ho] at hu
    exact h ▸ of_decide_eq_true hu.2
  | none =>
    rw [ho, Option.none_or] at h
    obtain ⟨payload, -, hf⟩ := List.mem_flatMap.1 (Entries.mem_of_get? h)
    cases payload with
    | none => exact absurd hf List.not_mem_nil
    | some payload =>
      obtain ⟨diagnostic, -, hf⟩ := List.mem_flatMap.1 hf
      exact Diagnostic.type_of_mem_fields hf

theorem mem_occurrences_of_scalar? {payload : Payload} (hp : some payload ∈ payloads)
    (h : (payload.scalar? (α := α) options name).isSome) :
    name ∈ Entries.keys (Schema.occurrences α payloads options.excludedKeys) := by
  obtain ⟨value, hv⟩ := Option.isSome_iff_exists.1 h
  have hfield : (name, value.type) ∈ payload.scalarFields α options.excludedKeys :=
    List.mem_map.2 ⟨(name, value), Entries.mem_of_get? hv, rfl⟩
  exact List.mem_map.2 ⟨_, List.mem_flatMap.2 ⟨some payload, hp, hfield⟩, rfl⟩

/-- The scalar keys of every payload are in the schema. -/
theorem mem_discover_of_scalar? {payload : Payload} (hp : some payload ∈ payloads)
    (h : (payload.scalar? (α := α) options name).isSome) :
    name ∈ Entries.keys (Schema.discover α payloads options.excludedKeys) := by
  rw [Schema.mem_keys_discover]
  exact mem_occurrences_of_scalar? hp h

end Payload

namespace Frame
variable {frame : Frame α} {position row : Nat} {source column : Column α} {cells : List String}

/-- Whether the text column at a position can have a numeric column under a name. -/
def isUsable (frame : Frame α) (names : NameMap) (options : Options) (position : Nat) (cells : List String)
    (name : String) : Bool :=
  Schema.isUsable (frame.inUse names options position)
    (Schema.occurrences α (cells.map Payload.ofText?) options.excludedKeys) name

theorem type_of_mem_addedAt (hs : frame.columns[position]? = some source) (hc : source.strings? = some cells)
    (hcol : column ∈ frame.addedAt names options position)
    (hu : frame.isUsable names options position cells column.name) : column.type = .float64 := by
  rw [addedAt_eq hs hc] at hcol
  have htype : Entries.get? (frame.derivedAt names options position source cells).fields column.name =
      some column.type := by
    rw [Derived.get?_fields, Derived.column?_of_mem (inv_derivedAt position source cells).nodup hcol, Option.map_some]
  rw [fields_derivedAt hc, Column.newFields, hc, Entries.get?_firsts,
    Entries.get?_filter fun name => name ∉ frame.inUse names options position] at htype
  split at htype
  · exact Payload.type_of_isUsable hu htype
  · cases htype

theorem get?_addedAt (hs : frame.columns[position]? = some source) (hc : source.strings? = some cells)
    (hcol : column ∈ frame.addedAt names options position) (hr : row < frame.rowCount) :
    column.get? row = some (match cells[row]?.bind Payload.ofText? with
      | none => Scalar.zero column.type
      | some payload => payload.cell names options (frame.isUsable names options position cells)
          column.name column.type) := by
  have htype := type_of_mem_addedAt hs hc hcol
  rw [addedAt_eq hs hc] at hcol
  have hcolumn := Derived.column?_of_mem (inv_derivedAt position source cells).nodup hcol
  rw [Derived.get?_performAll rfl (Payload.covered_columnChanges _ _) hcolumn hr,
    Payload.last?_columnChanges, List.getElem?_map]
  congr 1
  cases hraw : cells[row]? with
  | none => rfl
  | some raw =>
    rw [Option.map_some, Option.join_some, Option.bind_some]
    cases hp : Payload.ofText? raw with
    | none => rfl
    | some payload =>
      refine Payload.last?_changes (fun hshare => htype ?_)
        (Payload.mem_discover_of_scalar? (Payload.mem_map_ofText? hraw hp))
      obtain ⟨diagnostic, -, hu, -⟩ := Payload.exists_of_share? hshare
      exact hu

theorem length_of_mem_addedAt (hs : frame.columns[position]? = some source) (hc : source.strings? = some cells)
    (hcol : column ∈ frame.addedAt names options position) : column.length = frame.rowCount := by
  rw [addedAt_eq hs hc] at hcol
  rw [(inv_derivedAt position source cells).even column hcol]
  exact Derived.rows_performAll

theorem get?_addedAt_eq_none (hs : frame.columns[position]? = some source) (hc : source.strings? = some cells)
    (hcol : column ∈ frame.addedAt names options position) (hr : frame.rowCount ≤ row) : column.get? row = none :=
  Column.get?_eq_none (length_of_mem_addedAt hs hc hcol ▸ hr)

/-- A share stands in its row, whatever else the payload has for the column. -/
theorem get?_of_share? (hs : frame.columns[position]? = some source) (hc : source.strings? = some cells)
    {raw : String} {payload : Payload} (hraw : cells[row]? = some raw) (hp : Payload.ofText? raw = some payload)
    (hcol : column ∈ frame.addedAt names options position) (hr : row < frame.rowCount) {share : α}
    (hshare : payload.share? names options (frame.isUsable names options position cells) column.name =
      some share) : column.get? row = some (.float64 share) := by
  rw [get?_addedAt hs hc hcol hr, hraw, Option.bind_some, hp]
  simp only [Payload.cell, hshare]

/-- What a diagnostic asks for has a column, unless the name is in use. -/
theorem exists_column_of_field (hs : frame.columns[position]? = some source) (hc : source.strings? = some cells)
    {raw : String} {payload : Payload} (hraw : cells[row]? = some raw) (hp : Payload.ofText? raw = some payload)
    {diagnostic : Diagnostic α} (hd : diagnostic ∈ payload.diagnostics options.segmentRule)
    {field : String × ScalarType}
    (hfield : field ∈ diagnostic.fields names options (frame.isUsable names options position cells))
    (hfree : field.1 ∉ frame.inUse names options position) :
    ∃ column ∈ frame.addedAt names options position, column.name = field.1 := by
  have hcandidate : field ∈ Payload.candidates α names options (frame.inUse names options position)
      (cells.map Payload.ofText?) :=
    List.mem_append_right _ (List.mem_flatMap.2 ⟨some payload, Payload.mem_map_ofText? hraw hp,
      List.mem_flatMap.2 ⟨diagnostic, hd, hfield⟩⟩)
  exact List.mem_map.1 ((mem_names_addedAt hs hc).2 ⟨List.mem_map_of_mem (f := Prod.fst) hcandidate, hfree⟩)

/-- Every share has a column. -/
theorem exists_column_of_share? (hs : frame.columns[position]? = some source) (hc : source.strings? = some cells)
    {raw : String} {payload : Payload} (hraw : cells[row]? = some raw) (hp : Payload.ofText? raw = some payload)
    {name : String}
    (hshare : (payload.share? (α := α) names options (frame.isUsable names options position cells) name).isSome) :
    ∃ column ∈ frame.addedAt names options position, column.name = name := by
  obtain ⟨diagnostic, hd, hu, rfl⟩ := Payload.exists_of_share? hshare
  rw [isUsable, Schema.isUsable, Bool.and_eq_true] at hu
  exact exists_column_of_field hs hc hraw hp hd (Diagnostic.mem_fields.2 (.inl rfl)) (of_decide_eq_true hu.1)

/-- Cell by cell, what flattening adds to a frame for a text column. -/
theorem cells_flatten (frame : Frame α) (names : NameMap) (options : Options) :
    (frame.flatten names options).value.columns = frame.columns ++
        (List.range frame.columns.length).flatMap (frame.addedAt names options) ∧
      ∀ position source cells, frame.columns[position]? = some source → source.strings? = some cells →
        ∀ column ∈ frame.addedAt names options position, ∀ row < frame.rowCount,
          column.get? row = some (match cells[row]?.bind Payload.ofText? with
            | none => Scalar.zero column.type
            | some payload => payload.cell names options (frame.isUsable names options position cells)
                column.name column.type) := by
  refine ⟨?_, fun position source cells hs hc column hcol row hr => get?_addedAt hs hc hcol hr⟩
  rw [columns_flatten, addedBefore_eq_flatMap]

/-- The cells of one text column: a payload with two diagnostics, and nothing. -/
def sampleCells : List String :=
  ["\x7b\"diagnostics\":[\x7b\"name\":\"r\\\\a\",\"value\":3\x7d,\x7b\"name\":\"r\\\\b\",\"value\":1\x7d]\x7d", ""]

def sample (α : Type) : Frame α := ⟨"f", [⟨"value", .string sampleCells⟩], none⟩

/-- The payload in the first of the sample cells. -/
def samplePayload : Payload :=
  ⟨[("diagnostics", .array [.object [("name", .string "r\\a"), ("value", .number (.natural 3))],
    .object [("name", .string "r\\b"), ("value", .number (.natural 1))]])]⟩

theorem ofText?_sampleCells : Payload.ofText? (sampleCells.head (by decide)) = some samplePayload := by rfl

theorem cells_flatten_sample :
    let column : Column Float := ⟨"contrib_a", .float64 [75.0, 0.0]⟩
    column ∈ (sample Float).addedAt {} {} 0 ∧ column.get? 0 = some (.float64 75.0) ∧
      column.get? 1 = some (.float64 0.0) := by
  intro column
  have hcol : column ∈ (sample Float).addedAt {} {} 0 := by decide +kernel
  have hcells := (cells_flatten (sample Float) {} {}).2 0 _ _ rfl rfl column hcol
  exact ⟨hcol, (hcells 0 (by decide)).trans (by decide +kernel), (hcells 1 (by decide)).trans (by decide +kernel)⟩

end Frame

end Unnest
