import Unnest.Proofs.Flatten.Extends
import Unnest.Proofs.Flatten.Independence

/-!
# Flattening a second time

A frame is settled if its text columns ask for no names but its own; flattening leaves such a frame as it is
(`flatten_of_settled`). What flattening has been over is settled, for every name that a text column asks for is
in use afterwards: it was in use before, or a column was made for it. An anomaly score whose contribution column
could not be had asks for nothing, then or now. Only text columns that were added themselves may ask for more
(`flatten_flatten`).
-/

namespace Unnest
variable {α : Type} [Quantity α] {names : NameMap} {options : Options}

namespace Payload
variable {inUse inUse' : List String} {payloads : List (Option Payload)} {name : String}

theorem candidates_eq_nil (h : ∀ payload ∈ payloads, payload = none) :
    candidates α names options inUse payloads = [] := by
  have hscalars : Schema.occurrences α payloads options.excludedKeys = [] :=
    List.flatMap_eq_nil_iff.2 fun payload hp => by rw [h payload hp]; rfl
  rw [candidates, hscalars, List.nil_append]
  exact List.flatMap_eq_nil_iff.2 fun payload hp => by rw [h payload hp]; rfl

/-- Once all names that rows ask for are in use, the rows ask for no other. -/
theorem mem_keys_candidates_of_inUse
    (h : ∀ name ∈ Entries.keys (candidates α names options inUse payloads), name ∈ inUse')
    (hname : name ∈ Entries.keys (candidates α names options inUse' payloads)) : name ∈ inUse' := by
  rcases mem_keys_candidates.1 hname with hscalar | ⟨payload, hp, diagnostic, hd, hf⟩
  · exact h name (mem_keys_candidates.2 (.inl hscalar))
  · have hcontribution : diagnostic.contributionColumn names options ∈ inUse' :=
      h _ (mem_keys_candidates.2 (.inr ⟨payload, hp, diagnostic, hd, Diagnostic.mem_fields.2 (.inl rfl)⟩))
    rcases Diagnostic.mem_fields.1 hf with he | ⟨husable, -, -⟩
    · exact (Prod.mk.inj he).1 ▸ hcontribution
    · -- the contribution column cannot be had, so the anomaly score is passed over
      rw [Schema.isUsable, Bool.and_eq_true, decide_eq_true_iff] at husable
      exact absurd hcontribution husable.1

end Payload

theorem Column.newFields_eq_nil_iff {inUse : List String} {source : Column α} :
    source.newFields names options inUse = [] ↔ ∀ cells, source.strings? = some cells →
      ∀ name ∈ Entries.keys (Payload.candidates α names options inUse (cells.map Payload.ofText?)),
        name ∈ inUse := by
  have hkeys : source.newFields names options inUse = [] ↔
      ∀ name, name ∉ Entries.keys (source.newFields names options inUse) := by
    rw [← List.eq_nil_iff_forall_not_mem, Entries.keys, List.map_eq_nil_iff]
  rw [hkeys, newFields]
  cases source.strings? with
  | none => exact ⟨fun _ cells hc => absurd hc (Option.some_ne_none cells).symm, fun _ _ => List.not_mem_nil⟩
  | some cells =>
    simp only [Entries.mem_keys_firsts, Entries.keys_filter fun name => name ∉ inUse, List.mem_filter,
      decide_eq_true_iff, not_and, not_not]
    exact ⟨fun h _ hc name => Option.some_inj.1 hc ▸ h name, fun h name => h cells rfl name⟩

namespace Frame
variable {frame : Frame α}

/-- The text columns of a frame ask for no names but those of its columns. -/
def Settled (frame : Frame α) (names : NameMap) (options : Options) : Prop :=
  ∀ source ∈ frame.columns, source.newFields names options frame.columnNames = []

theorem newFields_eq_nil {inUse : List String} {columns : List (Column α)}
    (h : ∀ source ∈ columns, source.newFields names options inUse = []) :
    newFields names options inUse columns = [] := by
  induction columns with
  | nil => rfl
  | cons source rest ih =>
    have hsource : source.newFields names options inUse = [] := h source List.mem_cons_self
    rw [newFields, hsource, Entries.keys_nil, List.append_nil, List.nil_append]
    exact ih fun other ho => h other (List.mem_cons_of_mem _ ho)

theorem flatten_of_settled (h : frame.Settled names options) : (frame.flatten names options).value = frame := by
  have hadded : frame.addedBefore names options frame.columns.length = [] := by
    rw [← List.map_eq_nil_iff (f := fun column : Column α => (column.name, column.type)), fields_addedBefore,
      List.take_length]
    exact newFields_eq_nil h
  have hcolumns : (frame.flatten names options).value.columns = frame.columns := by
    rw [columns_flatten, hadded, List.append_nil]
  obtain ⟨hname, hmetadata, -⟩ := extends_flatten frame names options
  revert hname hmetadata hcolumns
  cases (frame.flatten names options).value
  rintro rfl rfl rfl
  rfl

/-- Every name that a text column asks for is in use after flattening. -/
theorem mem_columnNames_flatten {position : Nat} {source : Column α} {cells : List String}
    (hs : frame.columns[position]? = some source) (hc : source.strings? = some cells) {name : String}
    (hname : name ∈ Entries.keys (Payload.candidates α names options (frame.inUse names options position)
      (cells.map Payload.ofText?))) : name ∈ (frame.flatten names options).value.columnNames := by
  have hposition : position < frame.columns.length := (List.getElem?_eq_some_iff.1 hs).1
  by_cases hused : name ∈ frame.inUse names options position
  · rw [columnNames, columns_flatten, List.map_append, List.mem_append]
    rcases List.mem_append.1 hused with h | h
    · exact .inl h
    · -- what was added before the column stays
      right
      obtain ⟨column, hcolumn, rfl⟩ := List.mem_map.1 h
      refine List.mem_map_of_mem ?_
      rw [addedBefore_eq_flatMap] at hcolumn ⊢
      obtain ⟨i, hi, hcolumn⟩ := List.mem_flatMap.1 hcolumn
      have hi : i < position := List.mem_range.1 hi
      exact List.mem_flatMap.2 ⟨i, List.mem_range.2 (Nat.lt_trans hi hposition), hcolumn⟩
  · have hadded : name ∈ (frame.addedAt names options position).map Column.name :=
      (mem_names_addedAt hs hc).2 ⟨hname, hused⟩
    exact ((addedAt_sublist hposition).map Column.name).subset hadded

theorem settled_flatten (h : ∀ column ∈ frame.added names options, ∀ cells, column.strings? = some cells →
      ∀ raw ∈ cells, Payload.ofText? raw = none) :
    (frame.flatten names options).value.Settled names options := by
  intro source hsource
  refine Column.newFields_eq_nil_iff.2 fun cells hc name hname => ?_
  have hcolumns : (frame.flatten names options).value.columns = frame.columns ++ frame.added names options := by
    rw [added, columns_flatten, List.drop_left]
  rcases List.mem_append.1 (hcolumns ▸ hsource) with hold | hnew
  · obtain ⟨position, hs⟩ := List.getElem?_of_mem hold
    exact Payload.mem_keys_candidates_of_inUse (fun _ hasked => mem_columnNames_flatten hs hc hasked) hname
  · have hnone : ∀ payload ∈ cells.map Payload.ofText?, payload = none := by
      intro payload hp
      obtain ⟨raw, hraw, rfl⟩ := List.mem_map.1 hp
      exact h source hnew cells hc raw hraw
    rw [Payload.candidates_eq_nil hnone] at hname
    exact absurd hname List.not_mem_nil

/-- Flattening what was flattened changes nothing, unless it is nested: a text column that was added holds
payloads again. -/
theorem flatten_flatten (frame : Frame α) (names : NameMap) (options : Options)
    (h : ∀ column ∈ frame.added names options, ∀ cells, column.strings? = some cells →
      ∀ raw ∈ cells, Payload.ofText? raw = none) :
    ((frame.flatten names options).value.flatten names options).value = (frame.flatten names options).value :=
  flatten_of_settled (settled_flatten h)

/-- A text and two diagnostics, of which one has an anomaly score. -/
def notedCell : String :=
  "\x7b\"note\":\"x\",\"diagnostics\":[\x7b\"name\":\"r\\\\a\",\"value\":3,\"anomaly_score\":2\x7d," ++
    "\x7b\"name\":\"r\\\\b\",\"value\":1\x7d]\x7d"

/-- The contribution column of the diagnostic with the score is in use. -/
def notedFrame : Frame Float := ⟨"f", [⟨"contrib_a", .float64 [7.0]⟩, ⟨"value", .string [notedCell]⟩], none⟩

theorem added_notedFrame :
    notedFrame.added {} {} = [⟨"note", .string ["x"]⟩, ⟨"contrib_b", .float64 [100.0]⟩] := by
  decide +kernel

theorem flatten_flatten_noted :
    (∀ column ∈ notedFrame.added {} {}, ∀ cells, column.strings? = some cells →
      ∀ raw ∈ cells, Payload.ofText? raw = none) ∧
    ((notedFrame.flatten {} {}).value.flatten {} {}).value = (notedFrame.flatten {} {}).value := by
  have h : ∀ column ∈ notedFrame.added {} {}, ∀ cells, column.strings? = some cells →
      ∀ raw ∈ cells, Payload.ofText? raw = none := by
    rw [added_notedFrame]
    intro column hcolumn cells hc raw hraw
    rcases List.mem_cons.1 hcolumn with rfl | hcolumn
    · obtain rfl := Option.some_inj.1 hc
      obtain rfl := List.mem_singleton.1 hraw
      rfl
    · obtain rfl := List.mem_singleton.1 hcolumn
      cases hc
  exact ⟨h, flatten_flatten notedFrame {} {} h⟩

end Frame

end Unnest
