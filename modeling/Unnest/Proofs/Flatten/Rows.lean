import Unnest.Flatten
import Unnest.Proofs.Column
import Unnest.Proofs.Schema
import Unnest.Proofs.Shares

/-!
# What rows ask for and what they supply

A row of a text column asks for fields and supplies values for them. Both depend on the other rows in one
respect only: whether a numeric column can be had under a name (`Schema.isUsable`) is settled by the names
in use and by the scalar keys of all rows. Diagnostics whose contribution column cannot be had are passed
over, the rest are `Diagnostic.accepted`. Payloads are read here without the events that reading reports
(`Payload.value_ofCells`).
-/

namespace Unnest
variable {α : Type}

/-- Whether a numeric column can be had under a name: it is not in use, and it is not a scalar key that
first occurs with another type. -/
def Schema.isUsable (inUse : List String) (occurrences : List (String × ScalarType)) (name : String) :
    Bool :=
  decide (name ∉ inUse) && (Entries.get? occurrences name).all (· = .float64)

namespace Diagnostic
variable (names : NameMap) (options : Options) (usable : String → Bool)

/-- The name of the column of a diagnostic's contribution. -/
def contributionColumn (diagnostic : Diagnostic α) : String :=
  options.contributionPrefix ++ names.resolve diagnostic.propertyId

/-- The name of the column of a diagnostic's anomaly score. -/
def anomalyColumn (diagnostic : Diagnostic α) : String :=
  options.anomalyPrefix ++ names.resolve diagnostic.propertyId

/-- The fields that a diagnostic asks for, whether they can be had or not. -/
def fields (diagnostic : Diagnostic α) : List (String × ScalarType) :=
  (diagnostic.contributionColumn names options, .float64) ::
    if usable (diagnostic.contributionColumn names options) && diagnostic.anomalyScore.isSome then
      [(diagnostic.anomalyColumn names options, .float64)]
    else []

/-- The diagnostics whose contribution column can be had. -/
def accepted (diagnostics : List (Diagnostic α)) : List (Diagnostic α) :=
  diagnostics.filter fun diagnostic => usable (diagnostic.contributionColumn names options)

/-- The contributions that diagnostics give, each under the name of its column. -/
def contributions (diagnostics : List (Diagnostic α)) : List (String × α) :=
  diagnostics.filterMap fun diagnostic =>
    diagnostic.contribution.map (diagnostic.contributionColumn names options, ·)

/-- The anomaly scores that diagnostics give, each under the name of its column. -/
def scores (diagnostics : List (Diagnostic α)) : List (String × α) :=
  diagnostics.filterMap fun diagnostic =>
    diagnostic.anomalyScore.map (diagnostic.anomalyColumn names options, ·)

theorem mem_fields {names : NameMap} {options : Options} {usable : String → Bool}
    {diagnostic : Diagnostic α} {field : String × ScalarType} :
    field ∈ diagnostic.fields names options usable ↔
      field = (diagnostic.contributionColumn names options, .float64) ∨
        usable (diagnostic.contributionColumn names options) ∧ diagnostic.anomalyScore.isSome ∧
          field = (diagnostic.anomalyColumn names options, .float64) := by
  unfold fields
  split <;> simp_all

theorem type_of_mem_fields {names : NameMap} {options : Options} {usable : String → Bool}
    {diagnostic : Diagnostic α} {field : String × ScalarType}
    (h : field ∈ diagnostic.fields names options usable) : field.2 = .float64 := by
  rcases mem_fields.1 h with rfl | ⟨-, -, rfl⟩ <;> rfl

theorem contributions_accepted {names : NameMap} {options : Options} {usable : String → Bool}
    (diagnostics : List (Diagnostic α)) :
    contributions names options (accepted names options usable diagnostics) =
      (contributions names options diagnostics).filter fun contribution => usable contribution.1 := by
  unfold contributions accepted
  induction diagnostics with
  | nil => rfl
  | cons diagnostic rest ih =>
    cases hu : usable (diagnostic.contributionColumn names options) <;>
      cases hc : diagnostic.contribution <;> simp [hu, hc, ih]

/-- The names under which accepted diagnostics give quantities. -/
theorem mem_keys_accepted {names : NameMap} {options : Options} {usable : String → Bool}
    (column : Diagnostic α → String) (quantity? : Diagnostic α → Option α) {diagnostics : List (Diagnostic α)}
    {name : String} : name ∈ Entries.keys ((accepted names options usable diagnostics).filterMap
        fun diagnostic => (quantity? diagnostic).map (column diagnostic, ·)) ↔
      ∃ diagnostic ∈ diagnostics, usable (diagnostic.contributionColumn names options) ∧
        column diagnostic = name ∧ (quantity? diagnostic).isSome := by
  constructor
  · intro h
    obtain ⟨entry, hm, rfl⟩ := List.mem_map.1 h
    obtain ⟨diagnostic, hd, hq⟩ := List.mem_filterMap.1 hm
    obtain ⟨value, hv, rfl⟩ := Option.map_eq_some_iff.1 hq
    obtain ⟨hd, hu⟩ := List.mem_filter.1 hd
    exact ⟨diagnostic, hd, hu, rfl, by rw [hv]; rfl⟩
  · rintro ⟨diagnostic, hd, hu, rfl, hq⟩
    obtain ⟨value, hv⟩ := Option.isSome_iff_exists.1 hq
    exact List.mem_map.2 ⟨(column diagnostic, value), List.mem_filterMap.2 ⟨diagnostic,
      List.mem_filter.2 ⟨hd, hu⟩, by rw [hv, Option.map_some]⟩, rfl⟩

end Diagnostic

namespace Payload
variable (names : NameMap) (options : Options) (usable : String → Bool)

/-- The payload that a cell holds. -/
def ofText? (raw : String) : Option Payload := (decode raw).toOption

theorem value_ofCell (frame column : String) (expected : List String) (row : Nat) (raw : String) :
    (ofCell frame column expected row raw).value = ofText? raw := by
  unfold ofCell ofText?
  split
  · rename_i he
    rw [String.isEmpty_iff.1 he]
    rfl
  · cases decode raw with
    | ok payload => rfl
    | error error =>
      dsimp only
      split <;> rfl

theorem value_ofCells (frame column : String) (expected : List String) (row : Nat) (cells : List String) :
    (ofCells frame column expected row cells).value = cells.map ofText? := by
  induction cells generalizing row with
  | nil => rfl
  | cons raw rest ih => rw [ofCells, Traced.value_bind, value_ofCell, Traced.value_bind, ih]; rfl

theorem mem_map_ofText? {cells : List String} {row : Nat} {raw : String} {payload : Payload}
    (hraw : cells[row]? = some raw) (hp : ofText? raw = some payload) :
    some payload ∈ cells.map ofText? :=
  hp ▸ List.mem_map_of_mem (List.mem_of_getElem? hraw)

variable (α) in
/-- The fields that the diagnostics of a payload ask for. -/
def diagnosticFields [Quantity α] (payload : Payload) : List (String × ScalarType) :=
  (payload.diagnostics (α := α) options.segmentRule).flatMap (Diagnostic.fields names options usable)

variable [Quantity α] (payload : Payload)

/-- The contributions of a payload that count: the last one under every name, the names in the order in
which they first get one. -/
def shares : Shares String α :=
  ⟨Entries.latest (Diagnostic.contributions names options
    (Diagnostic.accepted names options usable (payload.diagnostics options.segmentRule)))⟩

theorem nodup_shares : (Entries.keys (payload.shares (α := α) names options usable).recorded).Nodup :=
  Entries.nodup_latest _

/-- The share of the contributions under a name. -/
def share? (name : String) : Option α := (payload.shares names options usable).share? name

/-- The last anomaly score under a name. -/
def score? (name : String) : Option α :=
  Entries.last? (Diagnostic.scores names options
    (Diagnostic.accepted names options usable (payload.diagnostics options.segmentRule))) name

/-- The scalar under a name. -/
def scalar? (name : String) : Option (Scalar α) := Entries.get? (payload.scalars options.excludedKeys) name

/-- What a payload supplies for the column with a name and type: a share, or else an anomaly score, or
else a scalar of the type, or else the zero value. -/
def cell (name : String) (type : ScalarType) : Scalar α :=
  match payload.share? names options usable name with
  | some share => .float64 share
  | none =>
    match type, payload.score? names options usable name with
    | .float64, some score => .float64 score
    | _, _ => ((payload.scalar? options name).filter fun value => value.type = type).getD (Scalar.zero type)

end Payload

end Unnest
