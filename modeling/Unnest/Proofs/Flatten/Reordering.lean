import Unnest.Proofs.Flatten.Filled
import Unnest.Proofs.Flatten.Written

/-!
# The order of keys

A payload may list its keys in any order: flattening adds the same columns, perhaps in another order, and the
columns that only diagnostics ask for even in the same order (`Frame.flatten_reordered`). No key occurs twice in
a payload that was read, so its scalars are determined by their keys (`Payload.get?_scalars`), and the first row
with a key gives the type of its column whatever else is in the row.
-/

namespace Unnest

namespace Entries
variable {κ α : Type} [DecidableEq κ] {l l' : List (κ × α)}

/-- Entries without repeated keys are determined by their values, up to their order. -/
theorem perm_of_get? (h : (keys l).Nodup) (h' : (keys l').Nodup) (hget : ∀ key, get? l' key = get? l key) :
    l'.Perm l := by
  refine (List.perm_ext_iff_of_nodup h'.of_map h.of_map).2 fun entry => ?_
  rw [mem_iff_get? h', mem_iff_get? h, hget]

theorem get?_filterMap {β : Type} (f : κ → α → Option β) (h : (keys l).Nodup) (key : κ) :
    get? (l.filterMap fun entry => (f entry.1 entry.2).map (entry.1, ·)) key = (get? l key).bind (f key) := by
  induction l with
  | nil => rfl
  | cons entry l ih =>
    obtain ⟨hk, hl⟩ := List.nodup_cons.1 h
    have ih := ih hl
    by_cases he : entry.1 = key
    · subst he
      rw [get?_eq_none_iff.2 hk, Option.bind_none] at ih
      cases hf : f entry.1 entry.2 <;> simp [get?, hf, ih]
    · cases hf : f entry.1 entry.2 <;> simp [get?, hf, he, ih]

end Entries

/-- Payloads that supply the same scalars and diagnostics. -/
structure Payload.Alike (α : Type) [Quantity α] (options : Options) (payload' payload : Payload) : Prop where
  scalar? : ∀ key, payload'.scalar? (α := α) options key = payload.scalar? options key
  diagnostics : payload'.diagnostics (α := α) options.segmentRule = payload.diagnostics options.segmentRule

/-- A text in place of another: the same text, or an object with the same values under the same keys in place of
an object. -/
def Payload.Reordered (raw' raw : String) : Prop :=
  raw' = raw ∨ ∃ payload' payload, ofText? raw' = some payload' ∧ ofText? raw = some payload ∧
    ∀ key, payload'.get? key = payload.get? key

/-- A column in place of another: the same column, or a text column with reordered cells. -/
inductive Column.Reordered {α : Type} : Column α → Column α → Prop
  | same (column : Column α) : Reordered column column
  | strings (name : String) {cells' cells : List String} (h : List.Forall₂ Payload.Reordered cells' cells) :
    Reordered ⟨name, .string cells'⟩ ⟨name, .string cells⟩

/-- Frames that are equal but for the order of the keys in their payloads. -/
structure Frame.Reordered {α : Type} (frame' frame : Frame α) : Prop where
  name : frame'.name = frame.name
  metadata : frame'.metadata = frame.metadata
  columns : List.Forall₂ Column.Reordered frame'.columns frame.columns

variable {α : Type} [Quantity α] {names : NameMap} {options : Options}

namespace Payload
variable {payload payload' : Payload}

theorem get?_scalars (h : (Entries.keys payload.members).Nodup) (excluded : List String) (key : String) :
    Entries.get? (payload.scalars (α := α) excluded) key = (payload.get? key).bind fun value =>
      if isPromoted excluded key then Scalar.ofJson? value else none := by
  rw [get?, ← Entries.get?_filterMap
    (fun key value => if isPromoted excluded key then Scalar.ofJson? value else none) h]
  refine congrArg (fun l => Entries.get? l key) (List.filterMap_congr fun member _ => ?_)
  show (if isPromoted excluded member.1 then (Scalar.ofJson? member.2).map (member.1, ·) else none) =
    (if isPromoted excluded member.1 then Scalar.ofJson? member.2 else none).map (member.1, ·)
  cases isPromoted excluded member.1 <;> rfl

theorem Alike.refl (payload : Payload) : Alike α options payload payload := ⟨fun _ => rfl, rfl⟩

theorem alike_of_get? (h' : (Entries.keys payload'.members).Nodup) (h : (Entries.keys payload.members).Nodup)
    (hget : ∀ key, payload'.get? key = payload.get? key) : Alike α options payload' payload := by
  refine ⟨fun key => ?_, ?_⟩
  · rw [scalar?, scalar?, get?_scalars h', get?_scalars h, hget]
  · rw [diagnostics, diagnostics, diagnosticItems?, diagnosticItems?, hget]

theorem nodup_of_ofText? {raw : String} (h : ofText? raw = some payload) : (Entries.keys payload.members).Nodup := by
  cases readable_of_ofText? h with
  | object _ nodup => exact nodup

theorem Reordered.rel_ofText? {raw' raw : String} (h : Reordered raw' raw) :
    Option.Rel (Alike α options) (ofText? raw') (ofText? raw) := by
  rcases h with rfl | ⟨payload', payload, hp', hp, hget⟩
  · cases ofText? raw' with
    | none => exact .none
    | some payload => exact .some (.refl payload)
  · rw [hp', hp]
    exact .some (alike_of_get? (nodup_of_ofText? hp') (nodup_of_ofText? hp) hget)

section
variable {payloads' payloads : List (Option Payload)} {inUse' inUse : List String}
  (h : List.Forall₂ (Option.Rel (Alike α options)) payloads' payloads)
include h

theorem get?_occurrences_reordered (key : String) :
    Entries.get? (Schema.occurrences α payloads' options.excludedKeys) key =
      Entries.get? (Schema.occurrences α payloads options.excludedKeys) key := by
  rw [Schema.get?_occurrences, Schema.get?_occurrences]
  induction h with
  | nil => rfl
  | cons hrow _ ih =>
    rw [List.findSome?_cons, List.findSome?_cons, ih]
    cases hrow with
    | none => rfl
    | @some payload' payload halike =>
      have hsame : Entries.get? (payload'.scalars (α := α) options.excludedKeys) key =
          Entries.get? (payload.scalars options.excludedKeys) key := halike.scalar? key
      rw [Option.bind_some, Option.bind_some, hsame]

theorem mem_keys_occurrences_reordered (key : String) :
    key ∈ Entries.keys (Schema.occurrences α payloads' options.excludedKeys) ↔
      key ∈ Entries.keys (Schema.occurrences α payloads options.excludedKeys) := by
  rw [← Entries.get?_isSome_iff, ← Entries.get?_isSome_iff, get?_occurrences_reordered h]

theorem allDiagnostics_reordered : allDiagnostics (α := α) options payloads' = allDiagnostics options payloads := by
  unfold allDiagnostics
  induction h with
  | nil => rfl
  | cons hrow _ ih =>
    rw [List.flatMap_cons, List.flatMap_cons, ih]
    congr 1
    cases hrow with
    | none => rfl
    | some halike => exact halike.diagnostics

variable (huse : ∀ name, name ∈ inUse' ↔ name ∈ inUse)
include huse

theorem isUsable_reordered : isUsable α options inUse' payloads' = isUsable α options inUse payloads := by
  funext name
  rw [isUsable, isUsable, Schema.isUsable, Schema.isUsable, get?_occurrences_reordered h]
  simp only [huse]

theorem requested_reordered :
    requested α names options inUse' payloads' = requested α names options inUse payloads := by
  rw [requested, requested, allDiagnostics_reordered h, isUsable_reordered h huse]

theorem perm_scalarPart : (scalarPart α options inUse' payloads').Perm (scalarPart α options inUse payloads) := by
  refine Entries.perm_of_get? (Entries.nodup_firsts _) (Entries.nodup_firsts _) fun key => ?_
  rw [scalarPart, scalarPart, Entries.get?_firsts, Entries.get?_firsts, Entries.get?_filter fun name => name ∉ inUse',
    Entries.get?_filter fun name => name ∉ inUse, get?_occurrences_reordered h]
  simp only [huse]

theorem diagnosticPart_reordered :
    diagnosticPart α names options inUse' payloads' = diagnosticPart α names options inUse payloads := by
  rw [diagnosticPart, diagnosticPart, requested_reordered h huse]
  simp only [huse, mem_keys_occurrences_reordered h]

theorem supplied_reordered (name : String) (type : ScalarType) :
    supplied (α := α) names options inUse' payloads' name type = supplied names options inUse payloads name type := by
  funext row
  have hrow : Option.Rel (Option.Rel (Alike α options)) payloads'[row]? payloads[row]? := Frame.rel_getElem? h row
  unfold supplied
  rw [isUsable_reordered h huse]
  generalize payloads'[row]? = row', payloads[row]? = row at hrow ⊢
  cases hrow with
  | none => rfl
  | some hrow =>
    cases hrow with
    | none => rfl
    | some halike =>
      show cell _ _ _ _ _ _ = cell _ _ _ _ _ _
      unfold cell share? score? shares
      rw [halike.scalar?, halike.diagnostics]

theorem fill_reordered (rows : Nat) : fill (α := α) names options inUse' payloads' rows =
    fill names options inUse payloads rows := by
  funext field
  rw [fill, fill, supplied_reordered h huse]

theorem perm_filledColumns (rows : Nat) : (filledColumns (α := α) names options inUse' payloads' rows).Perm
    (filledColumns names options inUse payloads rows) := by
  rw [filledColumns, filledColumns, fill_reordered h huse, newFields_eq_append, newFields_eq_append,
    diagnosticPart_reordered h huse]
  exact ((perm_scalarPart h huse).append_right _).map _

end

end Payload

namespace Column.Reordered
variable {column' column : Column α}

omit [Quantity α]

theorem name_eq (h : column'.Reordered column) : column'.name = column.name := by
  cases h <;> rfl

theorem length_eq (h : column'.Reordered column) : column'.length = column.length := by
  cases h with
  | same => rfl
  | strings _ h => exact h.length_eq

end Column.Reordered

theorem Column.Reordered.rel_payloads {column' column : Column α} (h : column'.Reordered column) :
    List.Forall₂ (Option.Rel (Payload.Alike α options)) column'.payloads column.payloads := by
  have hcells : ∀ {cells' cells : List String}, List.Forall₂ Payload.Reordered cells' cells →
      List.Forall₂ (Option.Rel (Payload.Alike α options)) (cells'.map Payload.ofText?) (cells.map Payload.ofText?) :=
    fun h => List.rel_map (fun _ _ hraw => hraw.rel_ofText?) h
  cases h with
  | same => exact hcells (List.forall₂_same.2 fun raw _ => .inl rfl)
  | strings _ h => exact hcells h

namespace Frame
variable {frame' frame : Frame α}

namespace Reordered

omit [Quantity α] in
theorem columnNames_eq (h : frame'.Reordered frame) : frame'.columnNames = frame.columnNames :=
  columnNames_congr (h.columns.imp fun _ _ hc => hc.name_eq)

omit [Quantity α] in
theorem rowCount_eq (h : frame'.Reordered frame) : frame'.rowCount = frame.rowCount := by
  obtain ⟨name, columns, metadata⟩ := frame
  obtain ⟨name', columns', metadata'⟩ := frame'
  cases h.columns with
  | nil => rfl
  | cons hc _ => exact hc.length_eq

theorem rel_payloadsAt (h : frame'.Reordered frame) (position : Nat) :
    List.Forall₂ (Option.Rel (Payload.Alike α options)) (frame'.payloadsAt position) (frame.payloadsAt position) := by
  have hrel := rel_getElem? h.columns position
  unfold payloadsAt
  generalize frame'.columns[position]? = source', frame.columns[position]? = source at hrel ⊢
  cases hrel with
  | none => exact .nil
  | some hc => exact hc.rel_payloads

theorem mem_inUse (h : frame'.Reordered frame) {position : Nat}
    (hadded : (frame'.addedBefore names options position).Perm (frame.addedBefore names options position))
    (name : String) : name ∈ frame'.inUse names options position ↔ name ∈ frame.inUse names options position := by
  rw [inUse, inUse, h.columnNames_eq]
  exact ((hadded.map Column.name).append_left _).mem_iff

theorem perm_addedBefore (h : frame'.Reordered frame) (position : Nat) :
    (frame'.addedBefore names options position).Perm (frame.addedBefore names options position) := by
  induction position with
  | zero => exact .nil
  | succ position ih =>
    rw [addedBefore_succ_eq, addedBefore_succ_eq, addedAt_eq_filledColumns, addedAt_eq_filledColumns, h.rowCount_eq]
    exact ih.append (Payload.perm_filledColumns (h.rel_payloadsAt position) (h.mem_inUse ih) frame.rowCount)

end Reordered

/-- The order of keys in payloads is a matter of the order of columns only, and not even of the order of those
that only diagnostics ask for. -/
theorem flatten_reordered (frame' frame : Frame α) (names : NameMap) (options : Options)
    (h : frame'.Reordered frame) : (frame'.added names options).Perm (frame.added names options) ∧
      frame'.diagnosticColumns names options = frame.diagnosticColumns names options := by
  have hlength : frame'.columns.length = frame.columns.length := h.columns.length_eq
  constructor
  · rw [added, added, columns_flatten, columns_flatten, List.drop_left, List.drop_left, hlength]
    exact h.perm_addedBefore frame.columns.length
  · rw [diagnosticColumns, diagnosticColumns, hlength]
    refine List.flatMap_congr fun position _ => ?_
    have huse : ∀ name, name ∈ frame'.inUse names options position ↔ name ∈ frame.inUse names options position :=
      h.mem_inUse (h.perm_addedBefore position)
    rw [filter_diagnostic_addedAt, filter_diagnostic_addedAt, h.rowCount_eq,
      Payload.diagnosticPart_reordered (h.rel_payloadsAt position) huse,
      Payload.fill_reordered (h.rel_payloadsAt position) huse]

def draftPayload : Payload :=
  ⟨[("note", .string "x"), ("score", .number (.natural 2)),
    ("diagnostics", .array [.object [("name", .string "r\\a"), ("value", .number (.natural 3))]])]⟩

/-- The payload with its keys in another order. -/
def draftPayload' : Payload :=
  ⟨[("diagnostics", .array [.object [("name", .string "r\\a"), ("value", .number (.natural 3))]]),
    ("score", .number (.natural 2)), ("note", .string "x")]⟩

def draftCell : String :=
  "\x7b\"note\":\"x\",\"score\":2,\"diagnostics\":[\x7b\"name\":\"r\\\\a\",\"value\":3\x7d]\x7d"

def draftCell' : String :=
  "\x7b\"diagnostics\":[\x7b\"name\":\"r\\\\a\",\"value\":3\x7d],\"score\":2,\"note\":\"x\"\x7d"

def draft (α : Type) (raw : String) : Frame α := ⟨"f", [⟨"value", .string [raw]⟩], none⟩

theorem flatten_reordered_draft :
    (draft Float draftCell').Reordered (draft Float draftCell) ∧
      ((draft Float draftCell).added {} {}).map Column.name = ["note", "score", "contrib_a"] ∧
      ((draft Float draftCell').added {} {}).map Column.name = ["score", "note", "contrib_a"] ∧
      ((draft Float draftCell').added {} {}).Perm ((draft Float draftCell).added {} {}) := by
  have hget : ∀ key, draftPayload'.get? key = draftPayload.get? key := by
    intro key
    by_cases hn : "note" = key
    · subst hn
      rfl
    · by_cases hs : "score" = key
      · subst hs
        rfl
      · simp [Payload.get?, draftPayload, draftPayload', Entries.get?, hn, hs]
  have hcell : Payload.Reordered draftCell' draftCell :=
    .inr ⟨draftPayload', draftPayload, by rfl, by rfl, hget⟩
  have h : (draft Float draftCell').Reordered (draft Float draftCell) :=
    ⟨rfl, rfl, .cons (.strings "value" (.cons hcell .nil)) .nil⟩
  exact ⟨h, by decide +kernel, by decide +kernel,
    (flatten_reordered (draft Float draftCell') (draft Float draftCell) {} {} h).1⟩

end Frame

end Unnest
