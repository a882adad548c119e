import Unnest.Proofs.Flatten.Places

/-!
# The index of derived columns

Derived columns start from nothing, and two calls change them: a column of a name and type is required, or a cell of
the column at a place is set. Whatever was called before, the index leads from each name to the place of its column
(`Indexed.Represents`), so requiring a column always gives an answer. The place in an answer is that of the same
column for good: columns are only added, at the end, and setting a cell leaves names and types alone
(`Indexed.represents_of_leads`).
-/

namespace Unnest

namespace Derived
variable {α : Type} {derived other : Derived α} {name : String} {type : ScalarType} {place row : Nat}
  {value : Scalar α}

theorem index?_eq_some_iff (h : (Entries.keys derived.fields).Nodup) : derived.index? name = some place ↔
    ∃ column, derived.columns[place]? = some column ∧ column.name = name := by
  constructor
  · intro hplace
    obtain ⟨column, hcolumn, -, hname⟩ := exists_of_index? hplace
    exact ⟨column, hcolumn, hname⟩
  · rintro ⟨column, hcolumn, rfl⟩
    rw [keys_fields] at h
    obtain ⟨hlt, rfl⟩ := List.getElem?_eq_some_iff.1 hcolumn
    unfold index?
    rw [List.findIdx?_eq_some_iff_getElem]
    refine ⟨hlt, decide_eq_true rfl, fun before hbefore hsame => ?_⟩
    have hlt' : before < derived.columns.length := Nat.lt_trans hbefore hlt
    have hnames : (derived.columns.map Column.name)[before]? = (derived.columns.map Column.name)[place]? := by
      rw [List.getElem?_map, List.getElem?_map, hcolumn, List.getElem?_eq_getElem hlt']
      simpa using hsame
    have hplaces := (List.getElem?_inj (by simpa using hlt') h).1 hnames
    omega

/-- Growing leaves the name and type of the column at a place. -/
theorem Grows.exists_column (h : derived.Grows other) {column : Column α}
    (hcolumn : derived.columns[place]? = some column) :
    ∃ column', other.columns[place]? = some column' ∧ column'.name = column.name ∧ column'.type = column.type := by
  obtain ⟨added, hadded, -⟩ := h.fields
  have hfield : derived.fields[place]? = some (column.name, column.type) := by
    unfold Derived.fields
    rw [List.getElem?_map, hcolumn]
    rfl
  have hlt : place < derived.fields.length := (List.getElem?_eq_some_iff.1 hfield).1
  have hkept : (derived.fields ++ added)[place]? = derived.fields[place]? := List.getElem?_append_left hlt
  rw [← hkept, ← hadded] at hfield
  unfold Derived.fields at hfield
  rw [List.getElem?_map, Option.map_eq_some_iff] at hfield
  obtain ⟨column', hcolumn', hsame⟩ := hfield
  exact ⟨column', hcolumn', congrArg Prod.fst hsame, congrArg Prod.snd hsame⟩

theorem mem_refused_require [Quantity α] {refused : String}
    (h : refused ∈ (derived.require name type).value.1.refused) :
    refused ∈ derived.refused ∨ refused ∈ derived.taken := by
  rcases require_cases derived name type with ⟨_, _, he⟩ | ⟨_, ht, he⟩ | ⟨_, _, he⟩ <;> rw [he] at h
  · exact .inl h
  · simp only [Traced.value_bind, Traced.value_pure, value_refuse] at h
    split at h
    · exact .inl h
    · rcases List.mem_append.1 h with h | h
      · exact .inl h
      · rw [List.mem_singleton.1 h]
        exact .inr ht
  · exact .inl h

/-- Where the answer is that there is no column, the columns stay as they are. -/
theorem columns_require_of_not [Quantity α] (h : (derived.require name type).value.2 = false) :
    (derived.require name type).value.1.columns = derived.columns := by
  rcases require_cases derived name type with ⟨_, _, he⟩ | ⟨_, _, he⟩ | ⟨_, _, he⟩ <;> rw [he] at h ⊢
  · rfl
  · show (derived.refuse name).value.columns = derived.columns
    rw [value_refuse]
  · cases h

/-- There is a column unless the name is in use or its column has another type. -/
theorem snd_require_iff [Quantity α] (h : derived.Inv) : (derived.require name type).value.2 = true ↔
    name ∉ derived.taken ∧ ∀ column ∈ derived.columns, column.name = name → column.type = type := by
  rw [snd_require, get?_fields]
  rcases hname : derived.column? name with _ | column
  · have hnone : ∀ column ∈ derived.columns, column.name ≠ name := by
      intro column hcolumn he
      rw [column?_eq_none, keys_fields] at hname
      exact hname (he ▸ List.mem_map_of_mem hcolumn)
    simp only [Option.map_none, Option.elim_none, decide_eq_true_eq]
    constructor
    · intro hfree
      exact ⟨hfree, fun column hcolumn he => absurd he (hnone column hcolumn)⟩
    · rintro ⟨hfree, -⟩
      exact hfree
  · have hmem := mem_of_column? hname
    have hsame := name_of_column? hname
    simp only [Option.map_some, Option.elim_some, decide_eq_true_eq]
    constructor
    · intro htype
      refine ⟨h.free name (mem_keys_fields.2 (by rw [hname]; rfl)), fun other hother he => ?_⟩
      have hother := column?_of_mem h.nodup hother
      rw [he, hname, Option.some_inj] at hother
      rw [← hother]
      exact htype
    · rintro ⟨-, hall⟩
      exact hall column hmem hsame

/-- The column that is there has the type that was required. -/
theorem type_of_require [Quantity α] (h : derived.Inv) (hthere : (derived.require name type).value.2 = true)
    {column : Column α} (hcolumn : (derived.require name type).value.1.column? name = some column) :
    column.type = type := by
  obtain ⟨hfree, hall⟩ := (snd_require_iff h).1 hthere
  rw [column?_require, if_pos ⟨rfl, hfree⟩] at hcolumn
  rcases hold : derived.column? name with _ | old
  · rw [hold, Option.none_or, Option.some_inj] at hcolumn
    rw [← hcolumn, Column.type_zeroed]
  · rw [hold, Option.some_or, Option.some_inj] at hcolumn
    rw [← hcolumn]
    exact hall old (mem_of_column? hold) (name_of_column? hold)

end Derived

namespace Indexed
open Checked
variable {α : Type}

/-- No derived columns yet. -/
def empty (frame source : String) (rows : Nat) (taken : List String) : Indexed α where
  derived := { frame, source, rows, taken }

/-- A call that may change derived columns. -/
inductive Call (α : Type) where
  | require (name : String) (type : ScalarType)
  | set (place row : Nat) (value : Scalar α)

/-- How an index stands for the places of columns, and which columns and refused names there may be if columns are
to have `rows` rows and names in `taken` are in use. -/
structure Represents (indexed : Indexed α) (rows : Nat) (taken : List String) : Prop where
  index : ∀ name place, Entries.get? indexed.index name = some place ↔
    ∃ column, indexed.derived.columns[place]? = some column ∧ column.name = name
  nodup : (indexed.derived.columns.map Column.name).Nodup
  free : ∀ column ∈ indexed.derived.columns, column.name ∉ taken
  even : ∀ column ∈ indexed.derived.columns, column.length = rows
  refused : ∀ name ∈ indexed.derived.refused, name ∈ taken

/-- The same, with the places that the columns have by their names. -/
structure Sound (indexed : Indexed α) : Prop where
  index : ∀ name, Entries.get? indexed.index name = indexed.derived.index? name
  inv : indexed.derived.Inv
  refused : ∀ name ∈ indexed.derived.refused, name ∈ indexed.derived.taken

theorem Sound.represents {indexed : Indexed α} (h : indexed.Sound) :
    indexed.Represents indexed.derived.rows indexed.derived.taken := by
  obtain ⟨hindex, ⟨hnodup, hfree, heven⟩, hrefused⟩ := h
  refine ⟨fun name place => ?_, ?_, fun column hcolumn => ?_, heven, hrefused⟩
  · rw [hindex, Derived.index?_eq_some_iff hnodup]
  · rw [← Derived.keys_fields]
    exact hnodup
  · refine hfree column.name ?_
    rw [Derived.keys_fields]
    exact List.mem_map_of_mem hcolumn

theorem sound_empty (frame source : String) (rows : Nat) (taken : List String) :
    (empty frame source rows taken : Indexed α).Sound :=
  ⟨fun _ => rfl, .of_columns_eq_nil rfl, fun _ h => absurd h List.not_mem_nil⟩

/-- Sound columns have become others that are sound, and that have grown from them. -/
structure Advances (indexed next : Indexed α) : Prop where
  sound : next.Sound
  grows : indexed.derived.Grows next.derived
  rows : next.derived.rows = indexed.derived.rows

theorem Advances.trans {indexed next last : Indexed α} (h : indexed.Advances next) (h' : next.Advances last) :
    indexed.Advances last := ⟨h'.sound, h.grows.trans h'.grows, h'.rows.trans h.rows⟩

variable {indexed next : Indexed α}

theorem Follows.advances {derived : Derived α} (h : Follows indexed.derived next derived) (hinv : derived.Inv)
    (hrefused : ∀ name ∈ derived.refused, name ∈ derived.taken) (hrows : derived.rows = indexed.derived.rows) :
    indexed.Advances next := by
  obtain ⟨rfl, hindex, hgrows⟩ := h
  exact ⟨⟨hindex, hinv, hrefused⟩, hgrows, hrows⟩

variable [Quantity α] {calls : List (Call α)}

/-- Makes a call and keeps what has become of the columns. -/
def perform (indexed : Indexed α) : Call α → Checked (Indexed α)
  | .require name type => return (← indexed.require name type).1
  | .set place row value => return (← indexed.set place row value).1

/-- Calls one after another lead from columns to others. They lead nowhere if one sets a cell where no column is. -/
def Leads (indexed : Indexed α) (calls : List (Call α)) (next : Indexed α) : Prop :=
  (calls.foldlM perform indexed).run.value = some next

/-! ### What a call does -/

/-- Requiring a column gives an answer, and it is the answer that columns give without an index. -/
theorem Sound.require (h : indexed.Sound) (name : String) (type : ScalarType) :
    ∃ next slot, (indexed.require name type).run.value = some (next, slot) ∧ indexed.Advances next ∧
      (indexed.derived.require name type).value = (next.derived, slot.isSome) ∧
      ∀ place, slot = some place → next.derived.index? name = some place := by
  have hindexed : Follows indexed.derived indexed indexed.derived := ⟨rfl, h.index, .refl _⟩
  obtain ⟨⟨next, slot⟩, hrun, hnext, hanswer⟩ := refines_require hindexed name type
  have hsame : (indexed.derived.require name type).value.1 = next.derived := hnext.same.symm
  have hadvances : indexed.Advances next := by
    refine hnext.advances h.inv.require (fun name hname => ?_) Derived.rows_require
    rw [Derived.taken_require]
    exact (Derived.mem_refused_require hname).elim (h.refused name) id
  refine ⟨next, slot, by rw [hrun], hadvances, ?_⟩
  rcases hanswer with ⟨husable, place, rfl, hplace⟩ | ⟨husable, rfl⟩
  · refine ⟨Prod.ext hsame husable, fun other hother => ?_⟩
    rw [← hsame, ← Option.some_inj.1 hother]
    exact hplace
  · exact ⟨Prod.ext hsame husable, nofun⟩

omit [Quantity α] in
/-- Setting a cell gives an answer where a column is, and writes to the column that has its name. -/
theorem Sound.set (h : indexed.Sound) {place : Nat} {column : Column α}
    (hcolumn : indexed.derived.columns[place]? = some column) (row : Nat) (value : Scalar α) :
    ∃ next taken, (indexed.set place row value).run.value = some (next, taken) ∧ indexed.Advances next ∧
      next.derived = indexed.derived.write column.name row value := by
  have hindexed : Follows indexed.derived indexed indexed.derived := ⟨rfl, h.index, .refl _⟩
  have hplace := (Derived.index?_eq_some_iff h.inv.nodup).2 ⟨column, hcolumn, rfl⟩
  obtain ⟨⟨next, taken⟩, hrun, hnext⟩ := refines_write hindexed hplace row value
  have hadvances : indexed.Advances next :=
    hnext.advances h.inv.write (by simpa using h.refused) Derived.rows_write
  exact ⟨next, taken, by rw [hrun], hadvances, hnext.same⟩

theorem Sound.perform (h : indexed.Sound) {call : Call α} (hnext : (indexed.perform call).run.value = some next) :
    indexed.Advances next := by
  rcases call with ⟨name, type⟩ | ⟨place, row, value⟩
  · obtain ⟨answer, hanswer, hvalue⟩ := exists_of_bind hnext
    obtain rfl := Option.some_inj.1 hvalue
    obtain ⟨found, slot, hrun, hadvances, -⟩ := h.require name type
    obtain rfl := Option.some_inj.1 (hrun.symm.trans hanswer)
    exact hadvances
  · obtain ⟨answer, hanswer, hvalue⟩ := exists_of_bind hnext
    obtain rfl := Option.some_inj.1 hvalue
    rcases hcolumn : indexed.derived.columns[place]? with _ | column
    · rw [Indexed.set, hcolumn] at hanswer
      cases hanswer
    · obtain ⟨found, taken, hrun, hadvances, -⟩ := h.set hcolumn row value
      obtain rfl := Option.some_inj.1 (hrun.symm.trans hanswer)
      exact hadvances

theorem Sound.leads (h : indexed.Sound) (hcalls : indexed.Leads calls next) : indexed.Advances next := by
  unfold Leads at hcalls
  induction calls generalizing indexed with
  | nil =>
    obtain rfl := Option.some_inj.1 hcalls
    exact ⟨h, .refl _, rfl⟩
  | cons call calls ih =>
    rw [List.foldlM_cons] at hcalls
    obtain ⟨mid, hmid, hrest⟩ := exists_of_bind hcalls
    have hadvances := h.perform hmid
    exact hadvances.trans (ih hadvances.sound hrest)

/-- Whatever was called before, the index stands for the places of the columns; requiring a column gives an answer, and
so does setting a cell of one, both as columns without an index do; and the place in an answer stays that of a column
with the name and type. -/
theorem represents_of_leads {frame source : String} {rows : Nat} {taken : List String}
    (hcalls : (empty frame source rows taken).Leads calls indexed) :
    indexed.Represents rows taken ∧
      (∀ name type, ∃ next slot, (indexed.require name type).run.value = some (next, slot) ∧
        (indexed.derived.require name type).value = (next.derived, slot.isSome) ∧
        (slot.isSome = true ↔
          name ∉ taken ∧ ∀ column ∈ indexed.derived.columns, column.name = name → column.type = type) ∧
        (slot = none → next.derived.columns = indexed.derived.columns) ∧
        ∀ place, slot = some place → ∀ later last, next.Leads later last →
          ∃ column, last.derived.columns[place]? = some column ∧ column.name = name ∧ column.type = type) ∧
      ∀ place column row value, indexed.derived.columns[place]? = some column →
        ∃ next written, (indexed.set place row value).run.value = some (next, written) ∧
          next.derived = indexed.derived.write column.name row value := by
  obtain ⟨hsound, ⟨htaken, -⟩, hrows⟩ := (sound_empty frame source rows taken).leads hcalls
  change indexed.derived.taken = taken at htaken
  change indexed.derived.rows = rows at hrows
  refine ⟨?_, fun name type => ?_, fun place column row value hcolumn => ?_⟩
  · rw [← htaken, ← hrows]
    exact hsound.represents
  · obtain ⟨next, slot, hrun, hadvances, hvalue, hplace⟩ := hsound.require name type
    have hanswer : (indexed.derived.require name type).value.2 = slot.isSome := congrArg Prod.snd hvalue
    have hnext : (indexed.derived.require name type).value.1 = next.derived := congrArg Prod.fst hvalue
    refine ⟨next, slot, hrun, hvalue, ?_, ?_, ?_⟩
    · rw [← hanswer, ← htaken]
      exact Derived.snd_require_iff hsound.inv
    · rintro rfl
      rw [← hnext]
      exact Derived.columns_require_of_not hanswer
    · rintro place rfl later last hlater
      obtain ⟨column, hcolumn, hfound, hname⟩ := Derived.exists_of_index? (hplace place rfl)
      have htype : column.type = type := Derived.type_of_require hsound.inv hanswer (hnext ▸ hfound)
      obtain ⟨column', hcolumn', hname', htype'⟩ := (hadvances.sound.leads hlater).grows.exists_column hcolumn
      exact ⟨column', hcolumn', hname'.trans hname, htype'.trans htype⟩
  · obtain ⟨next, written, hrun, -, hnext⟩ := hsound.set hcolumn row value
    exact ⟨next, written, hrun, hnext⟩

/-- Columns of two rows, with the name `a` in use and refused. -/
def sample (columns : List (Column Float)) : Indexed Float where
  derived := { frame := "f", source := "value", rows := 2, taken := ["a"], columns, refused := ["a"] }
  index := columns.zipIdx.map fun (column, place) => (column.name, place)

/-- The place of `y` outlasts what is called after it was required. -/
theorem represents_of_leads_sample :
    (empty "f" "value" 2 ["a"]).Leads [.require "x" .string, .require "a" .bool, .set 0 1 (.string "t")]
        (sample [⟨"x", .string ["", "t"]⟩]) ∧
      (sample [⟨"x", .string ["", "t"]⟩]).Represents 2 ["a"] ∧
      ((sample [⟨"x", .string ["", "t"]⟩]).require "y" .bool).run.value =
        some (sample [⟨"x", .string ["", "t"]⟩, ⟨"y", .bool [false, false]⟩], some 1) ∧
      (sample [⟨"x", .string ["", "t"]⟩, ⟨"y", .bool [false, false]⟩]).Leads
        [.require "z" .string, .set 1 0 (.bool true)]
        (sample [⟨"x", .string ["", "t"]⟩, ⟨"y", .bool [true, false]⟩, ⟨"z", .string ["", ""]⟩]) ∧
      ∃ column, (sample [⟨"x", .string ["", "t"]⟩, ⟨"y", .bool [true, false]⟩,
        ⟨"z", .string ["", ""]⟩]).derived.columns[1]? = some column ∧ column.name = "y" ∧ column.type = .bool := by
  have hcalls : (empty "f" "value" 2 ["a"]).Leads
      [.require "x" .string, .require "a" .bool, .set 0 1 (.string "t")] (sample [⟨"x", .string ["", "t"]⟩]) := rfl
  have hrun : ((sample [⟨"x", .string ["", "t"]⟩]).require "y" .bool).run.value =
      some (sample [⟨"x", .string ["", "t"]⟩, ⟨"y", .bool [false, false]⟩], some 1) := rfl
  obtain ⟨hrepresents, hrequire, -⟩ := represents_of_leads hcalls
  obtain ⟨next, slot, hfound, -, -, -, hplace⟩ := hrequire "y" .bool
  obtain ⟨rfl, rfl⟩ := Prod.mk.inj (Option.some_inj.1 (hfound.symm.trans hrun))
  exact ⟨hcalls, hrepresents, hrun, rfl, hplace 1 rfl [.require "z" .string, .set 1 0 (.bool true)] _ rfl⟩

end Indexed

end Unnest
