import Mathlib.Data.List.Forall2
import Mathlib.Data.List.Perm.Basic
import Unnest.Proofs.Flatten.Cells
import Unnest.Proofs.Flatten.Independence

/-!
# Added columns as filled fields

The columns that flattening adds for a column of a frame are its new fields, each filled row by row with what
the payloads supply (`Frame.addedAt_eq_filledColumns`). Both are functions of the payloads, the name map, the
options and the names in use alone, so two runs of flattening are compared by comparing these. The new fields
come in two parts, those of the scalar keys and those that only diagnostics ask for (`Payload.newFields_eq_append`),
and so do the added columns (`Frame.scalarColumns`, `Frame.diagnosticColumns`).
-/

namespace Unnest
variable {α : Type} [Quantity α]

namespace Scalar

def quantity : Scalar α → α
  | float64 x => x
  | _ => Quantity.zero

omit [Quantity α] in
def text : Scalar α → String
  | string s => s
  | _ => ""

omit [Quantity α] in
def truth : Scalar α → Bool
  | bool b => b
  | _ => false

/-- A scalar of a type: the given one if it is of the type, or else zero. -/
def ofType (type : ScalarType) (value : Scalar α) : Scalar α :=
  match type with
  | .float64 => .float64 value.quantity
  | .string => .string value.text
  | .bool => .bool value.truth

@[simp] theorem ofType_zero (type : ScalarType) : (zero type : Scalar α).ofType type = zero type := by
  cases type <;> rfl

end Scalar

namespace Cells

/-- Cells of a type, in every row the value that a function gives, or zero where that is of another type. -/
def filled (type : ScalarType) (rows : Nat) (value : Nat → Scalar α) : Cells α :=
  match type with
  | .float64 => .float64 ((List.range rows).map fun row => (value row).quantity)
  | .string => .string ((List.range rows).map fun row => (value row).text)
  | .bool => .bool ((List.range rows).map fun row => (value row).truth)

omit [Quantity α] in
theorem map_range_eq_self {β : Type} {store : β → Scalar α} (read : Scalar α → β)
    (hread : ∀ x, read (store x) = x) {xs : List β} {value : Nat → Scalar α}
    (h : ∀ row < xs.length, xs[row]?.map store = some (value row)) :
    (List.range xs.length).map (fun row => read (value row)) = xs := by
  refine List.ext_getElem (by simp) fun row _ hr => ?_
  have hvalue := h row hr
  rw [List.getElem?_eq_getElem hr, Option.map_some, Option.some_inj] at hvalue
  rw [List.getElem_map, List.getElem_range, ← hvalue, hread]

/-- Cells are determined by what is read from them. -/
theorem eq_filled {cells : Cells α} {value : Nat → Scalar α}
    (h : ∀ row < cells.length, cells.get? row = some (value row)) :
    cells = filled cells.type cells.length value := by
  cases cells with
  | float64 xs => exact congrArg float64 (map_range_eq_self Scalar.quantity (fun _ => rfl) h).symm
  | string xs => exact congrArg string (map_range_eq_self Scalar.text (fun _ => rfl) h).symm
  | bool xs => exact congrArg bool (map_range_eq_self Scalar.truth (fun _ => rfl) h).symm

@[simp] theorem type_filled (type : ScalarType) (rows : Nat) (value : Nat → Scalar α) :
    (filled type rows value).type = type := by
  cases type <;> rfl

@[simp] theorem length_filled (type : ScalarType) (rows : Nat) (value : Nat → Scalar α) :
    (filled type rows value).length = rows := by
  cases type <;> simp [filled, length]

theorem get?_filled {type : ScalarType} {rows row : Nat} (value : Nat → Scalar α) (h : row < rows) :
    (filled type rows value).get? row = some ((value row).ofType type) := by
  cases type <;> simp [filled, get?, Scalar.ofType, h]

end Cells

/-- The payloads in the rows of a column; columns of other types than texts have none. -/
def Column.payloads (source : Column α) : List (Option Payload) :=
  (source.strings?.getD []).map Payload.ofText?

namespace Payload
variable (names : NameMap) (options : Options) (inUse : List String) (payloads : List (Option Payload))

/-- The diagnostics of payloads, row by row. -/
def allDiagnostics : List (Diagnostic α) :=
  payloads.flatMap fun payload => payload.elim [] fun payload => payload.diagnostics options.segmentRule

variable (α) in
/-- Whether payloads can have a numeric column under a name. -/
def isUsable (name : String) : Bool :=
  Schema.isUsable inUse (Schema.occurrences α payloads options.excludedKeys) name

variable (α) in
def requested : List (String × ScalarType) :=
  (allDiagnostics (α := α) options payloads).flatMap
    (Diagnostic.fields names options (isUsable α options inUse payloads))

variable (α) in
def newFields : List (String × ScalarType) :=
  Entries.firsts ((candidates α names options inUse payloads).filter fun field => field.1 ∉ inUse)

variable (α) in
/-- The fields that the scalars of payloads give rise to. -/
def scalarPart : List (String × ScalarType) :=
  Entries.firsts ((Schema.occurrences α payloads options.excludedKeys).filter fun field => field.1 ∉ inUse)

variable (α) in
/-- The fields that only the diagnostics of payloads give rise to. -/
def diagnosticPart : List (String × ScalarType) :=
  Entries.firsts ((requested α names options inUse payloads).filter fun field =>
    field.1 ∉ inUse ∧ field.1 ∉ Entries.keys (Schema.occurrences α payloads options.excludedKeys))

/-- What payloads supply for a row of the column with a name and type. -/
def supplied (name : String) (type : ScalarType) (row : Nat) : Scalar α :=
  match payloads[row]?.join with
  | none => Scalar.zero type
  | some payload => payload.cell names options (isUsable α options inUse payloads) name type

def fill (rows : Nat) (field : String × ScalarType) : Column α :=
  ⟨field.1, Cells.filled field.2 rows (supplied names options inUse payloads field.1 field.2)⟩

def filledColumns (rows : Nat) : List (Column α) :=
  (newFields α names options inUse payloads).map (fill names options inUse payloads rows)

variable {names options inUse payloads}

theorem mem_allDiagnostics {payload : Payload} {diagnostic : Diagnostic α} (hp : some payload ∈ payloads)
    (hd : diagnostic ∈ payload.diagnostics options.segmentRule) :
    diagnostic ∈ allDiagnostics options payloads :=
  List.mem_flatMap.2 ⟨some payload, hp, hd⟩

theorem candidates_eq_append : candidates α names options inUse payloads =
    Schema.occurrences α payloads options.excludedKeys ++ requested α names options inUse payloads := by
  rw [candidates, requested, allDiagnostics, List.flatMap_assoc]
  congr 2
  funext payload
  cases payload <;> rfl

theorem mem_keys_newFields {name : String} : name ∈ Entries.keys (newFields α names options inUse payloads) ↔
    name ∈ Entries.keys (candidates α names options inUse payloads) ∧ name ∉ inUse := by
  rw [newFields, Entries.mem_keys_firsts, Entries.keys_filter fun name => name ∉ inUse, List.mem_filter,
    decide_eq_true_iff]

theorem newFields_eq_append : newFields α names options inUse payloads =
    scalarPart α options inUse payloads ++ diagnosticPart α names options inUse payloads := by
  rw [newFields, candidates_eq_append, List.filter_append, Entries.firsts_append, List.filter_filter,
    scalarPart, diagnosticPart]
  congr 2
  refine List.filter_congr fun field _ => ?_
  rw [Entries.keys_filter fun name => name ∉ inUse]
  by_cases hu : field.1 ∈ inUse <;> simp [hu]

theorem mem_keys_scalarPart {name : String} (h : name ∈ Entries.keys (scalarPart α options inUse payloads)) :
    name ∈ Entries.keys (Schema.discover α payloads options.excludedKeys) := by
  rw [scalarPart, Entries.mem_keys_firsts, Entries.keys_filter fun name => name ∉ inUse] at h
  rw [Schema.mem_keys_discover]
  exact List.mem_of_mem_filter h

theorem not_mem_keys_of_diagnosticPart {name : String}
    (h : name ∈ Entries.keys (diagnosticPart α names options inUse payloads)) :
    name ∉ Entries.keys (Schema.discover α payloads options.excludedKeys) := by
  rw [diagnosticPart, Entries.mem_keys_firsts] at h
  obtain ⟨field, hf, rfl⟩ := List.mem_map.1 h
  rw [Schema.mem_keys_discover]
  exact (of_decide_eq_true (List.mem_filter.1 hf).2).2

@[simp] theorem type_fill (rows : Nat) (field : String × ScalarType) :
    (fill (α := α) names options inUse payloads rows field).type = field.2 := Cells.type_filled _ _ _

@[simp] theorem length_fill (rows : Nat) (field : String × ScalarType) :
    (fill (α := α) names options inUse payloads rows field).length = rows := Cells.length_filled _ _ _

theorem get?_fill {rows row : Nat} (field : String × ScalarType) (h : row < rows) :
    (fill (α := α) names options inUse payloads rows field).get? row =
      some ((supplied names options inUse payloads field.1 field.2 row).ofType field.2) :=
  Cells.get?_filled _ h

/-- A row supplies the same in two runs if its payload is the same and supplies the same. -/
theorem supplied_congr {names' : NameMap} {options' : Options} {inUse' : List String}
    {payloads' : List (Option Payload)} {name name' : String} {type : ScalarType} {row : Nat}
    (hrow : payloads'[row]?.join = payloads[row]?.join)
    (hcell : ∀ payload, some payload ∈ payloads →
      payload.cell (α := α) names' options' (isUsable α options' inUse' payloads') name' type =
        payload.cell names options (isUsable α options inUse payloads) name type) :
    supplied (α := α) names' options' inUse' payloads' name' type row =
      supplied names options inUse payloads name type row := by
  unfold supplied
  rw [hrow]
  cases hp : payloads[row]?.join with
  | none => rfl
  | some payload => exact hcell payload (List.mem_of_getElem? (Option.join_eq_some_iff.1 hp))

theorem filter_filledColumns (rows : Nat) (p : String → Bool) :
    (filledColumns (α := α) names options inUse payloads rows).filter (fun column => p column.name) =
      ((newFields α names options inUse payloads).filter fun field => p field.1).map
        (fill names options inUse payloads rows) := by
  rw [filledColumns, List.filter_map]
  rfl

theorem filter_scalar_newFields : (newFields α names options inUse payloads).filter (fun field =>
    field.1 ∈ Entries.keys (Schema.discover α payloads options.excludedKeys)) =
      scalarPart α options inUse payloads := by
  rw [newFields_eq_append, List.filter_append]
  refine (congrArg₂ _ (List.filter_eq_self.2 fun field hf => ?_)
    (List.filter_eq_nil_iff.2 fun field hf => ?_)).trans (List.append_nil _)
  · exact decide_eq_true (mem_keys_scalarPart (List.mem_map_of_mem hf))
  · simpa using not_mem_keys_of_diagnosticPart (List.mem_map_of_mem hf)

theorem filter_diagnostic_newFields : (newFields α names options inUse payloads).filter (fun field =>
    field.1 ∉ Entries.keys (Schema.discover α payloads options.excludedKeys)) =
      diagnosticPart α names options inUse payloads := by
  rw [newFields_eq_append, List.filter_append]
  refine (congrArg₂ _ (List.filter_eq_nil_iff.2 fun field hf => ?_)
    (List.filter_eq_self.2 fun field hf => ?_)).trans (List.nil_append _)
  · simpa using mem_keys_scalarPart (List.mem_map_of_mem hf)
  · exact decide_eq_true (not_mem_keys_of_diagnosticPart (List.mem_map_of_mem hf))

end Payload

namespace Frame
variable (frame : Frame α) (names : NameMap) (options : Options)

def payloadsAt (position : Nat) : List (Option Payload) := frame.columns[position]?.elim [] Column.payloads

/-- The added columns for the scalar keys of the text columns. -/
def scalarColumns : List (Column α) :=
  (List.range frame.columns.length).flatMap fun position =>
    (frame.addedAt names options position).filter fun column =>
      column.name ∈ Entries.keys (Schema.discover α (frame.payloadsAt position) options.excludedKeys)

/-- The added columns that diagnostics asked for first. -/
def diagnosticColumns : List (Column α) :=
  (List.range frame.columns.length).flatMap fun position =>
    (frame.addedAt names options position).filter fun column =>
      column.name ∉ Entries.keys (Schema.discover α (frame.payloadsAt position) options.excludedKeys)

/-- The scalar keys of the payloads of a frame that may become columns. -/
def scalarKeys : List String :=
  frame.columns.flatMap fun source => Entries.keys (Schema.occurrences α source.payloads options.excludedKeys)

def diagnostics : List (Diagnostic α) :=
  frame.columns.flatMap fun source => Payload.allDiagnostics options source.payloads

/-- The names of the columns of contributions and of anomaly scores that the diagnostics of a frame lead to. -/
def diagnosticNames : List String :=
  (frame.diagnostics options).flatMap fun diagnostic =>
    [diagnostic.contributionColumn names options, diagnostic.anomalyColumn names options]

variable {frame names options}

theorem contributionColumn_mem {diagnostic : Diagnostic α} (h : diagnostic ∈ frame.diagnostics options) :
    diagnostic.contributionColumn names options ∈ frame.diagnosticNames names options :=
  List.mem_flatMap.2 ⟨diagnostic, h, List.mem_cons_self⟩

theorem anomalyColumn_mem {diagnostic : Diagnostic α} (h : diagnostic ∈ frame.diagnostics options) :
    diagnostic.anomalyColumn names options ∈ frame.diagnosticNames names options :=
  List.mem_flatMap.2 ⟨diagnostic, h, List.mem_cons_of_mem _ List.mem_cons_self⟩

omit [Quantity α] in
theorem rel_getElem? {β γ : Type} {R : β → γ → Prop} {l : List β} {m : List γ} (h : List.Forall₂ R l m) (i : Nat) :
    Option.Rel R l[i]? m[i]? := by
  induction h generalizing i with
  | nil => exact .none
  | cons hr _ ih =>
    cases i with
    | zero => exact .some hr
    | succ i => exact ih i

omit [Quantity α] in
theorem columnNames_congr {frame' frame : Frame α}
    (h : List.Forall₂ (fun column' column => column'.name = column.name) frame'.columns frame.columns) :
    frame'.columnNames = frame.columnNames := by
  have hnames : List.Forall₂ (· = ·) frame'.columnNames frame.columnNames :=
    List.forall₂_map_left_iff.2 (List.forall₂_map_right_iff.2 h)
  exact List.forall₂_eq_eq_eq ▸ hnames

omit [Quantity α] in
theorem payloadsAt_cases (frame : Frame α) (position : Nat) :
    frame.payloadsAt position = [] ∨ ∃ source ∈ frame.columns, frame.payloadsAt position = source.payloads := by
  unfold payloadsAt
  cases hs : frame.columns[position]? with
  | none => exact .inl rfl
  | some source => exact .inr ⟨source, List.mem_of_getElem? hs, rfl⟩

theorem mem_diagnostics {position : Nat} {diagnostic : Diagnostic α}
    (h : diagnostic ∈ Payload.allDiagnostics options (frame.payloadsAt position)) :
    diagnostic ∈ frame.diagnostics options := by
  rcases frame.payloadsAt_cases position with hp | ⟨source, hs, hp⟩ <;> rw [hp] at h
  · exact absurd h List.not_mem_nil
  · exact List.mem_flatMap.2 ⟨source, hs, h⟩

theorem mem_scalarKeys {position : Nat} {key : String}
    (h : key ∈ Entries.keys (Schema.occurrences α (frame.payloadsAt position) options.excludedKeys)) :
    key ∈ frame.scalarKeys options := by
  rcases frame.payloadsAt_cases position with hp | ⟨source, hs, hp⟩ <;> rw [hp] at h
  · exact absurd h List.not_mem_nil
  · exact List.mem_flatMap.2 ⟨source, hs, h⟩

theorem addedAt_eq_filledColumns (position : Nat) : frame.addedAt names options position =
    Payload.filledColumns names options (frame.inUse names options position) (frame.payloadsAt position)
      frame.rowCount := by
  cases hcells : frame.columns[position]?.bind Column.strings? with
  | none =>
    rw [addedAt_eq_nil hcells, payloadsAt]
    cases hs : frame.columns[position]? with
    | none => rfl
    | some source =>
      rw [hs, Option.bind_some] at hcells
      rw [Option.elim_some, Column.payloads, hcells]
      rfl
  | some cells =>
    obtain ⟨source, hs, hc⟩ := Option.bind_eq_some_iff.1 hcells
    have hpayloads : frame.payloadsAt position = cells.map Payload.ofText? := by
      rw [payloadsAt, hs, Option.elim_some, Column.payloads, hc, Option.getD_some]
    have hfields : (frame.addedAt names options position).map (fun column => (column.name, column.type)) =
        Payload.newFields α names options (frame.inUse names options position) (frame.payloadsAt position) := by
      rw [addedAt_eq hs hc, hpayloads]
      refine Eq.trans (fields_derivedAt hc) ?_
      rw [Column.newFields, hc, Payload.newFields]
    have hfill : ∀ column ∈ frame.addedAt names options position, column = Payload.fill names options
        (frame.inUse names options position) (frame.payloadsAt position) frame.rowCount (column.name, column.type) := by
      intro column hcol
      have hlength := length_of_mem_addedAt hs hc hcol
      have hcell : ∀ row < column.length, column.get? row = some (Payload.supplied names options
          (frame.inUse names options position) (frame.payloadsAt position) column.name column.type row) := by
        intro row hr
        rw [get?_addedAt hs hc hcol (hlength ▸ hr), Payload.supplied, hpayloads, List.getElem?_map]
        cases cells[row]? <;> rfl
      have hcells : column.cells = Cells.filled column.type column.length _ := Cells.eq_filled hcell
      rw [hlength] at hcells
      rw [Payload.fill, ← hcells]
    calc frame.addedAt names options position
        = (frame.addedAt names options position).map fun column => Payload.fill names options
            (frame.inUse names options position) (frame.payloadsAt position) frame.rowCount
              (column.name, column.type) := ((List.map_congr_left hfill).symm.trans (List.map_id' _)).symm
      _ = _ := by rw [Payload.filledColumns, ← hfields, List.map_map]; rfl

theorem filter_scalar_addedAt (position : Nat) : (frame.addedAt names options position).filter (fun column =>
    column.name ∈ Entries.keys (Schema.discover α (frame.payloadsAt position) options.excludedKeys)) =
      (Payload.scalarPart α options (frame.inUse names options position) (frame.payloadsAt position)).map
        (Payload.fill names options (frame.inUse names options position) (frame.payloadsAt position)
          frame.rowCount) := by
  rw [addedAt_eq_filledColumns, Payload.filter_filledColumns _ fun name =>
      name ∈ Entries.keys (Schema.discover α (frame.payloadsAt position) options.excludedKeys),
    Payload.filter_scalar_newFields]

theorem filter_diagnostic_addedAt (position : Nat) : (frame.addedAt names options position).filter (fun column =>
    column.name ∉ Entries.keys (Schema.discover α (frame.payloadsAt position) options.excludedKeys)) =
      (Payload.diagnosticPart α names options (frame.inUse names options position)
        (frame.payloadsAt position)).map (Payload.fill names options (frame.inUse names options position)
          (frame.payloadsAt position) frame.rowCount) := by
  rw [addedAt_eq_filledColumns, Payload.filter_filledColumns _ fun name =>
      name ∉ Entries.keys (Schema.discover α (frame.payloadsAt position) options.excludedKeys),
    Payload.filter_diagnostic_newFields]

end Frame

end Unnest
