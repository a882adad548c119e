import Unnest.Proofs.Flatten.Extends
import Unnest.Proofs.Flatten.Filled

/-!
# Other names for properties

Flattening a frame with two name maps gives the same columns up to the names of contribution and anomaly
columns (`Frame.flatten_renamed`), if under each map these tell the properties and the two kinds of columns
apart and are not in use otherwise. A property that is not in a map is called by its identifier, so one of the
maps may be empty.

The names of the two runs are paired by a relation that is one-to-one (`Frame.biUnique_renamed`). Names only
matter as keys: what is looked up under a name in one run is looked up under its partner in the other. So both
runs ask for partners in the same order, and what they supply for partners is the same.
-/

namespace Unnest

/-! ### Entries under paired keys -/

namespace Entries
variable {κ α β : Type} {R : κ → κ → Prop} {l l' : List (κ × α)} {key key' : κ}

/-- Two lists of entries with the same values in the same places, under keys that are paired. -/
def Paired (R : κ → κ → Prop) (l l' : List (κ × α)) : Prop :=
  List.Forall₂ (fun entry entry' => R entry.1 entry'.1 ∧ entry'.2 = entry.2) l l'

namespace Paired

theorem refl (h : ∀ key ∈ keys l, R key key) : Paired R l l :=
  List.forall₂_same.2 fun _ he => ⟨h _ (List.mem_map_of_mem he), rfl⟩

theorem keys (h : Paired R l l') : List.Forall₂ R (keys l) (keys l') :=
  List.forall₂_map_left_iff.2 (List.forall₂_map_right_iff.2 (h.imp fun _ _ he => he.1))

theorem append {m m' : List (κ × α)} (h : Paired R l l') (hm : Paired R m m') : Paired R (l ++ m) (l' ++ m') :=
  List.rel_append h hm

theorem flatMap {items : List β} {f f' : β → List (κ × α)} (h : ∀ item ∈ items, Paired R (f item) (f' item)) :
    Paired R (items.flatMap f) (items.flatMap f') := by
  induction items with
  | nil => exact .nil
  | cons item items ih =>
    rw [List.flatMap_cons, List.flatMap_cons]
    exact (h item List.mem_cons_self).append (ih fun i hi => h i (List.mem_cons_of_mem _ hi))

theorem filter {p p' : κ × α → Bool} (h : Paired R l l')
    (hp : ∀ entry entry', R entry.1 entry'.1 → p entry = p' entry') : Paired R (l.filter p) (l'.filter p') :=
  List.rel_filter (fun _ _ he => Bool.eq_iff_iff.1 (hp _ _ he.1)) h

theorem filterMap {items : List β} {place place' : β → κ} {value : β → Option α}
    (h : ∀ item ∈ items, R (place item) (place' item)) :
    Paired R (items.filterMap fun item => (value item).map (place item, ·))
      (items.filterMap fun item => (value item).map (place' item, ·)) := by
  induction items with
  | nil => exact .nil
  | cons item items ih =>
    have hrest := ih fun i hi => h i (List.mem_cons_of_mem _ hi)
    cases hv : value item with
    | none => simpa only [List.filterMap_cons, hv, Option.map_none] using hrest
    | some v =>
      simp only [List.filterMap_cons, hv, Option.map_some]
      exact .cons ⟨h item List.mem_cons_self, rfl⟩ hrest

variable [DecidableEq κ] (hR : Relator.BiUnique R)
include hR

theorem get? (h : Paired R l l') (hkey : R key key') : get? l' key' = get? l key := by
  induction h with
  | nil => rfl
  | cons he _ ih =>
    rw [Entries.get?, Entries.get?, ih, he.2]
    simp only [Relator.rel_eq hR he.1 hkey]

theorem last? (h : Paired R l l') (hkey : R key key') : last? l' key' = last? l key := by
  induction h with
  | nil => rfl
  | cons he _ ih =>
    rw [last?_cons, last?_cons, ih, he.2]
    simp only [Relator.rel_eq hR he.1 hkey]

theorem firsts {l l' : List (κ × α)} (h : Paired R l l') : Paired R (firsts l) (firsts l') :=
  match l, l', h with
  | [], [], _ => .nil
  | entry :: l, entry' :: l', .cons he hl => by
    rw [firsts_cons, firsts_cons]
    refine .cons he (Paired.firsts (Paired.filter hl fun other other' ho => ?_))
    simp only [ne_eq, Relator.rel_eq hR ho he.1]
termination_by l.length
decreasing_by exact length_filter_lt entry l

theorem put (h : Paired R l l') (hkey : R key key') (value : α) : Paired R (put l key value) (put l' key' value) := by
  induction h with
  | nil => exact .cons ⟨hkey, rfl⟩ .nil
  | @cons entry entry' l l' he hl ih =>
    have hsame : entry.1 = key ↔ entry'.1 = key' := Relator.rel_eq hR he.1 hkey
    rw [Entries.put, Entries.put]
    by_cases hk : entry.1 = key
    · rw [if_pos hk, if_pos (hsame.1 hk)]
      exact .cons ⟨he.1, rfl⟩ hl
    · rw [if_neg hk, if_neg fun hk' => hk (hsame.2 hk')]
      exact .cons he ih

theorem latest (h : Paired R l l') : Paired R (latest l) (latest l') := by
  have hput : ∀ ⦃known known' : List (κ × α)⦄, Paired R known known' → ∀ ⦃entry entry' : κ × α⦄,
      R entry.1 entry'.1 ∧ entry'.2 = entry.2 →
        Paired R (Entries.put known entry.1 entry.2) (Entries.put known' entry'.1 entry'.2) := by
    rintro known known' hknown entry entry' ⟨hkey, hvalue⟩
    rw [hvalue]
    exact hknown.put hR hkey entry.2
  rw [← ofList_eq_latest, ← ofList_eq_latest]
  exact List.rel_foldl hput .nil h

end Paired
end Entries

/-! ### One text column -/

/-- The columns of two runs, with the same cells under paired names. -/
structure Column.Paired {α : Type} (R : String → String → Prop) (column column' : Column α) : Prop where
  name : R column.name column'.name
  cells : column'.cells = column.cells

/-- The names that two name maps give a diagnostic are paired. -/
structure Diagnostic.Paired {α : Type} (R : String → String → Prop) (names names' : NameMap) (options : Options)
    (diagnostic : Diagnostic α) : Prop where
  contribution : R (diagnostic.contributionColumn names options) (diagnostic.contributionColumn names' options)
  anomaly : R (diagnostic.anomalyColumn names options) (diagnostic.anomalyColumn names' options)

variable {α : Type} {names names' : NameMap} {options : Options} {R : String → String → Prop} {name name' : String}

theorem Diagnostic.Paired.fields {diagnostic : Diagnostic α} {usable usable' : String → Bool}
    (h : diagnostic.Paired R names names' options) (husable : usable' (diagnostic.contributionColumn names' options) =
      usable (diagnostic.contributionColumn names options)) :
    Entries.Paired R (diagnostic.fields names options usable) (diagnostic.fields names' options usable') := by
  rw [Diagnostic.fields, Diagnostic.fields, husable]
  refine .cons ⟨h.contribution, rfl⟩ ?_
  split
  · exact .cons ⟨h.anomaly, rfl⟩ .nil
  · exact .nil

variable [Quantity α]

theorem Shares.share?_paired {shares shares' : Shares String α} (hR : Relator.BiUnique R)
    (h : Entries.Paired R shares.recorded shares'.recorded) (hname : R name name') :
    shares'.share? name' = shares.share? name := by
  have hadd : ∀ ⦃sum sum' : α⦄, sum = sum' → ∀ ⦃entry entry' : String × α⦄,
      R entry.1 entry'.1 ∧ entry'.2 = entry.2 → Quantity.add sum entry.2 = Quantity.add sum' entry'.2 := by
    rintro sum _ rfl entry entry' ⟨-, hvalue⟩
    rw [hvalue]
  have htotal : shares.total = shares'.total := List.rel_foldl hadd rfl h
  rw [share?, share?, h.get? hR hname, htotal]

namespace Payload

/-- What a payload supplies under paired names, if its diagnostics are accepted in both runs or in neither. -/
theorem cell_paired {payload : Payload} {usable usable' : String → Bool} (hR : Relator.BiUnique R)
    (hscalars : ∀ key ∈ Entries.keys (payload.scalars (α := α) options.excludedKeys), R key key)
    (hdiagnostics : ∀ diagnostic ∈ payload.diagnostics (α := α) options.segmentRule,
      diagnostic.Paired R names names' options)
    (husable : ∀ diagnostic ∈ payload.diagnostics (α := α) options.segmentRule,
      usable' (diagnostic.contributionColumn names' options) = usable (diagnostic.contributionColumn names options))
    (hname : R name name') (type : ScalarType) :
    payload.cell (α := α) names' options usable' name' type = payload.cell names options usable name type := by
  have haccepted : Diagnostic.accepted names' options usable' (payload.diagnostics (α := α) options.segmentRule) =
      Diagnostic.accepted names options usable (payload.diagnostics options.segmentRule) :=
    List.filter_congr husable
  have hpaired : ∀ diagnostic ∈ Diagnostic.accepted names options usable
      (payload.diagnostics (α := α) options.segmentRule), diagnostic.Paired R names names' options :=
    fun diagnostic hd => hdiagnostics diagnostic (List.mem_of_mem_filter hd)
  have hshare : payload.share? (α := α) names' options usable' name' = payload.share? names options usable name := by
    refine Shares.share?_paired hR ?_ hname
    rw [shares, shares, haccepted]
    exact Entries.Paired.latest hR (Entries.Paired.filterMap fun diagnostic hd => (hpaired diagnostic hd).contribution)
  have hscore : payload.score? (α := α) names' options usable' name' = payload.score? names options usable name := by
    rw [score?, score?, haccepted]
    exact Entries.Paired.last? hR (Entries.Paired.filterMap fun diagnostic hd => (hpaired diagnostic hd).anomaly) hname
  have hscalar : payload.scalar? (α := α) options name' = payload.scalar? options name :=
    (Entries.Paired.refl hscalars).get? hR hname
  unfold cell
  rw [hshare, hscore, hscalar]

variable {inUse inUse' : List String} {payloads : List (Option Payload)}

section
variable (hR : Relator.BiUnique R)
  (hscalars : ∀ key ∈ Entries.keys (Schema.occurrences α payloads options.excludedKeys), R key key)
  (hdiagnostics : ∀ diagnostic ∈ allDiagnostics (α := α) options payloads, diagnostic.Paired R names names' options)
  (huse : List.Forall₂ R inUse inUse')
include hR hscalars huse

theorem isUsable_paired (hname : R name name') :
    isUsable α options inUse' payloads name' = isUsable α options inUse payloads name := by
  rw [isUsable, isUsable, Schema.isUsable, Schema.isUsable, (Entries.Paired.refl hscalars).get? hR hname]
  simp only [List.rel_mem hR hname huse]

include hdiagnostics

theorem paired_newFields : Entries.Paired R (newFields α names options inUse payloads)
    (newFields α names' options inUse' payloads) := by
  have hrequested : Entries.Paired R (requested α names options inUse payloads)
      (requested α names' options inUse' payloads) :=
    Entries.Paired.flatMap fun diagnostic hd => (hdiagnostics diagnostic hd).fields
      (isUsable_paired hR hscalars huse (hdiagnostics diagnostic hd).contribution)
  have hcandidates : Entries.Paired R (candidates α names options inUse payloads)
      (candidates α names' options inUse' payloads) := by
    rw [candidates_eq_append, candidates_eq_append]
    exact (Entries.Paired.refl hscalars).append hrequested
  refine Entries.Paired.firsts hR (hcandidates.filter fun field field' hname => ?_)
  simp only [List.rel_mem hR hname huse]

theorem supplied_paired (hname : R name name') (type : ScalarType) :
    supplied (α := α) names' options inUse' payloads name' type =
      supplied names options inUse payloads name type := by
  funext row
  refine supplied_congr rfl fun payload hmem => ?_
  have hpaired : ∀ diagnostic ∈ payload.diagnostics (α := α) options.segmentRule,
      diagnostic.Paired R names names' options :=
    fun diagnostic hd => hdiagnostics diagnostic (mem_allDiagnostics hmem hd)
  refine cell_paired hR (fun key hk => ?_) hpaired (fun diagnostic hd => ?_) hname type
  · exact hscalars key (mem_occurrences_of_scalar? hmem (Entries.get?_isSome_iff.2 hk))
  · exact isUsable_paired hR hscalars huse (hpaired diagnostic hd).contribution

theorem paired_filledColumns (rows : Nat) :
    List.Forall₂ (Column.Paired R) (filledColumns (α := α) names options inUse payloads rows)
      (filledColumns names' options inUse' payloads rows) := by
  have hfill : ∀ ⦃field field' : String × ScalarType⦄, R field.1 field'.1 ∧ field'.2 = field.2 →
      Column.Paired R (fill (α := α) names options inUse payloads rows field)
        (fill names' options inUse' payloads rows field') := by
    rintro field ⟨name', type⟩ ⟨hname, rfl⟩
    exact ⟨hname, congrArg (Cells.filled field.2 rows) (supplied_paired hR hscalars hdiagnostics huse hname field.2)⟩
  exact List.rel_map hfill (paired_newFields hR hscalars hdiagnostics huse)

end

end Payload

/-! ### Frames -/

/-- The two kinds of columns that diagnostics lead to. -/
inductive Family where
  | contribution
  | anomaly
deriving DecidableEq

/-- What the names of a family of columns start with. -/
def Options.familyPrefix (options : Options) : Family → String
  | .contribution => options.contributionPrefix
  | .anomaly => options.anomalyPrefix

def Family.column (family : Family) (names : NameMap) (options : Options) (propertyId : String) : String :=
  options.familyPrefix family ++ names.resolve propertyId

namespace Frame

def propertyIds (frame : Frame α) (options : Options) : List String :=
  (frame.diagnostics options).map Diagnostic.propertyId

/-- The names of contribution and anomaly columns tell properties and families apart and are no others. -/
structure Unambiguous (frame : Frame α) (names : NameMap) (options : Options) : Prop where
  injective : ∀ id ∈ frame.propertyIds options, ∀ id' ∈ frame.propertyIds options, ∀ family family' : Family,
    family.column names options id = family'.column names options id' → family = family' ∧ id = id'
  notInUse : ∀ id ∈ frame.propertyIds options, ∀ family : Family,
    family.column names options id ∉ frame.columnNames
  notScalar : ∀ id ∈ frame.propertyIds options, ∀ family : Family,
    family.column names options id ∉ frame.scalarKeys options

/-- A name under one name map and its name under another: two names of one family for one property, or the same
name of a column or scalar key. -/
inductive Renamed (frame : Frame α) (names names' : NameMap) (options : Options) : String → String → Prop
  | family (family : Family) {id : String} (h : id ∈ frame.propertyIds options) :
    Renamed frame names names' options (family.column names options id) (family.column names' options id)
  | same {name : String} (h : name ∈ frame.columnNames ∨ name ∈ frame.scalarKeys options) :
    Renamed frame names names' options name name

variable {frame : Frame α}

theorem Renamed.symm (h : frame.Renamed names names' options name name') :
    frame.Renamed names' names options name' name := by
  cases h with
  | family family h => exact .family family h
  | same h => exact .same h

/-- A name has one other name, for it is not in use both for a property and otherwise. -/
theorem Renamed.unique {first second : String} (h : frame.Unambiguous names options)
    (hfirst : frame.Renamed names names' options name first)
    (hsecond : frame.Renamed names names' options name second) : first = second := by
  have hdisjoint : ∀ family : Family, ∀ id ∈ frame.propertyIds options, ¬ (family.column names options id ∈
      frame.columnNames ∨ family.column names options id ∈ frame.scalarKeys options) :=
    fun family id hid => not_or.2 ⟨h.notInUse id hid family, h.notScalar id hid family⟩
  cases hfirst with
  | @family family id hid =>
    generalize hname : family.column names options id = name at hsecond
    cases hsecond with
    | @family family' id' hid' =>
      obtain ⟨rfl, rfl⟩ := h.injective id hid id' hid' family family' hname
      rfl
    | same hm => exact absurd (hname ▸ hm) (hdisjoint family id hid)
  | same hm =>
    cases hsecond with
    | family family hid => exact absurd hm (hdisjoint family _ hid)
    | same _ => rfl

theorem biUnique_renamed (h : frame.Unambiguous names options) (h' : frame.Unambiguous names' options) :
    Relator.BiUnique (frame.Renamed names names' options) :=
  ⟨fun _ _ _ hfirst hsecond => hfirst.symm.unique h' hsecond.symm, fun _ _ _ hfirst hsecond => hfirst.unique h hsecond⟩

theorem paired_diagnostic {diagnostic : Diagnostic α} (h : diagnostic ∈ frame.diagnostics options) :
    diagnostic.Paired (frame.Renamed names names' options) names names' options :=
  ⟨.family .contribution (List.mem_map_of_mem h), .family .anomaly (List.mem_map_of_mem h)⟩

section
variable (h : frame.Unambiguous names options) (h' : frame.Unambiguous names' options)
include h h'

theorem paired_addedBefore (position : Nat) : List.Forall₂ (Column.Paired (frame.Renamed names names' options))
    (frame.addedBefore names options position) (frame.addedBefore names' options position) := by
  induction position with
  | zero => exact .nil
  | succ position ih =>
    -- the names in use are those of the frame, paired with themselves, and those added, paired so far
    have huse : List.Forall₂ (frame.Renamed names names' options) (frame.inUse names options position)
        (frame.inUse names' options position) := by
      refine List.rel_append (List.forall₂_same.2 fun name hname => .same (.inl hname)) ?_
      exact List.forall₂_map_left_iff.2 (List.forall₂_map_right_iff.2 (ih.imp fun _ _ hc => hc.name))
    rw [addedBefore_succ_eq, addedBefore_succ_eq, addedAt_eq_filledColumns, addedAt_eq_filledColumns]
    refine List.rel_append ih (Payload.paired_filledColumns (biUnique_renamed h h') (fun key hk => ?_)
      (fun diagnostic hd => paired_diagnostic (mem_diagnostics hd)) huse frame.rowCount)
    exact .same (.inr (mem_scalarKeys hk))

end

/-- Flattening with other names for properties gives the same frame up to the names of the columns of
contributions and anomaly scores. -/
theorem flatten_renamed (frame : Frame α) (names names' : NameMap) (options : Options)
    (h : frame.Unambiguous names options) (h' : frame.Unambiguous names' options) :
    (frame.flatten names' options).value.name = (frame.flatten names options).value.name ∧
      (frame.flatten names' options).value.metadata = (frame.flatten names options).value.metadata ∧
      List.Forall₂ (Column.Paired (frame.Renamed names names' options))
        (frame.flatten names options).value.columns (frame.flatten names' options).value.columns := by
  have hextends := extends_flatten frame names options
  have hextends' := extends_flatten frame names' options
  refine ⟨hextends'.name.trans hextends.name.symm, hextends'.metadata.trans hextends.metadata.symm, ?_⟩
  rw [columns_flatten, columns_flatten]
  refine List.rel_append (List.forall₂_same.2 fun column hc => ⟨.same (.inl ?_), rfl⟩)
    (paired_addedBefore h h' frame.columns.length)
  exact List.mem_map_of_mem hc

/-- A readable name for one of the two properties of the sample. -/
def readableNames : NameMap := ⟨[("a", "Pressure")]⟩

theorem unambiguous_sample : ∀ names ∈ [readableNames, {}], (sample Float).Unambiguous names {} := by
  intro names hnames
  refine ⟨fun id hid id' hid' family family' => ?_, fun id hid family => ?_, fun id hid family => ?_⟩
  · cases family <;> cases family' <;> revert names id id' <;> decide +kernel
  · cases family <;> revert names id <;> decide +kernel
  · cases family <;> revert names id <;> decide +kernel

/-- With the name map and with the identifiers themselves. -/
theorem flatten_renamed_sample :
    (sample Float).Unambiguous readableNames {} ∧ (sample Float).Unambiguous {} {} ∧
      ((sample Float).flatten readableNames {}).value.columnNames = ["value", "contrib_Pressure", "contrib_b"] ∧
      ((sample Float).flatten {} {}).value.columnNames = ["value", "contrib_a", "contrib_b"] ∧
      List.Forall₂ (Column.Paired ((sample Float).Renamed readableNames {} {}))
        ((sample Float).flatten readableNames {}).value.columns ((sample Float).flatten {} {}).value.columns := by
  have h := unambiguous_sample readableNames (by decide)
  have h' := unambiguous_sample {} (by decide)
  exact ⟨h, h', by decide +kernel, by decide +kernel, (flatten_renamed (sample Float) readableNames {} {} h h').2.2⟩

end Frame

end Unnest
