import Unnest.Proofs.Shares

/-!
# Shares of recorded contributions

After any list of calls each key that was recorded has its last value, and the keys stand in the order in which
they were first recorded (`recorded_ofList`). So the total is the sum of the last values in that order, and the
shares are percentages of it.

Doubles are compared with zero in three ways: a total is positive, or it is zero or less, or it is not a number
(`le_zero_iff`). There are no shares if it is zero or less. A total that is not a number is not positive either,
and yet its shares are listed (`normalized_iff_pos_fails`); opposite infinities have such a total.
-/

namespace Unnest.Shares
open Float.Model
variable {κ α : Type} [DecidableEq κ]

/-- What has been gathered after contributions were recorded one after another. -/
def ofList (calls : List (κ × α)) : Shares κ α :=
  calls.foldl (fun shares call => shares.record call.1 call.2) {}

theorem ofList_append_singleton (calls : List (κ × α)) (key : κ) (value : α) :
    ofList (calls ++ [(key, value)]) = (ofList calls).record key value := by
  rw [ofList, List.foldl_append]
  rfl

theorem recorded_ofList (calls : List (κ × α)) : (ofList calls).recorded = Entries.latest calls := by
  rw [← Entries.ofList_eq_latest]
  induction calls using List.reverseRecOn with
  | nil => rfl
  | append_singleton calls call ih =>
    rw [ofList_append_singleton, record, ih, Entries.ofList_append_singleton]

/-- The last values of the keys, in the order in which these were first recorded. -/
def lastValues (calls : List (κ × α)) : List α :=
  (calls.map Prod.fst).eraseDups.filterMap (Entries.last? calls)

theorem map_snd_latest (calls : List (κ × α)) : (Entries.latest calls).map Prod.snd = lastValues calls := by
  rw [Entries.latest, List.map_filterMap, lastValues, Entries.keys]
  simp only [Option.map_map, Function.comp_def, Option.map_id']

variable [Quantity α]

theorem total_ofList (calls : List (κ × α)) :
    (ofList calls).total = (lastValues calls).foldl Quantity.add Quantity.emptyTotal := by
  rw [total, recorded_ofList, ← map_snd_latest, List.foldl_map]

theorem normalized_eq_some {calls : List (κ × α)} {shares : List (κ × α)} :
    (ofList calls).normalized = some shares ↔ Quantity.isNonpositive (ofList calls).total = false ∧
      shares = (calls.map Prod.fst).eraseDups.filterMap fun key =>
        (Entries.last? calls key).map fun value => (key, Quantity.percentage value (ofList calls).total) := by
  have hlist : (Entries.latest calls).map (fun entry =>
        (entry.1, Quantity.percentage entry.2 (ofList calls).total)) =
      (calls.map Prod.fst).eraseDups.filterMap fun key =>
        (Entries.last? calls key).map fun value => (key, Quantity.percentage value (ofList calls).total) := by
    rw [Entries.latest, List.map_filterMap, Entries.keys]
    simp only [Option.map_map]
    rfl
  rw [← hlist, ← recorded_ofList, normalized]
  cases Quantity.isNonpositive (ofList calls).total <;> simp [eq_comm]

/-! ### Doubles -/

/-- A double that is not zero or less is positive or not a number. -/
theorem le_zero_iff (x : Float) : x ≤ 0.0 ↔ ¬ 0.0 < x ∧ x.isNaN = false := by
  have hzero : (0.0 : Float).toModel.unpack = .zero .positive := rfl
  have hle : x ≤ 0.0 ↔ x.toModel.unpack.le (.zero .positive) = true := by
    rw [← hzero]
    exact decide_eq_true_iff
  have hlt : 0.0 < x ↔ UnpackedFloat.lt (.zero .positive) x.toModel.unpack = true := by
    rw [← hzero]
    exact decide_eq_true_iff
  have hnan : x.isNaN = x.toModel.unpack.isNaN := rfl
  rw [hle, hlt, hnan]
  cases x.toModel.unpack with
  | infinity s => cases s <;> decide
  | notANumber => decide
  | zero s => cases s <;> decide
  | finite s m e hm =>
    cases s with
    | positive => exact iff_of_false Bool.false_ne_true fun h => h.1 rfl
    | negative => exact iff_of_true rfl ⟨Bool.false_ne_true, rfl⟩

theorem isNonpositive_eq_false {x : Float} : Quantity.isNonpositive x = false ↔ 0.0 < x ∨ x.isNaN = true := by
  show decide (x ≤ 0.0) = false ↔ _
  rw [decide_eq_false_iff_not, le_zero_iff, not_and_or, not_not, Bool.not_eq_false]

/-- The total is the sum of the last values in the order of recording. There are no shares exactly if it is neither
positive nor not a number, and otherwise each key has its last value as a percentage of it. -/
theorem total_normalized_ofList (calls : List (κ × Float)) :
    (ofList calls).total = (lastValues calls).foldl (· + ·) (-0.0) ∧
      ((ofList calls).normalized = none ↔ ¬ 0.0 < (ofList calls).total ∧ (ofList calls).total.isNaN = false) ∧
      ∀ shares, (ofList calls).normalized = some shares ↔
        (0.0 < (ofList calls).total ∨ (ofList calls).total.isNaN = true) ∧
          shares = (calls.map Prod.fst).eraseDups.filterMap fun key =>
            (Entries.last? calls key).map fun value => (key, value / (ofList calls).total * 100.0) := by
  refine ⟨total_ofList calls, ?_, fun shares => ?_⟩
  · rw [← le_zero_iff, normalized]
    show (if decide ((ofList calls).total ≤ 0.0) = true then none else _) = none ↔ _
    simp
  · rw [normalized_eq_some, isNonpositive_eq_false]
    rfl

/-- A total that is not a number is not positive, and the shares are listed all the same. -/
theorem normalized_iff_pos_fails : ¬ ∀ calls : List (Nat × Float),
    (ofList calls).normalized = none ↔ ¬ 0.0 < (ofList calls).total := by
  intro h
  have hpos : ¬ 0.0 < (ofList [(0, (0.0 : Float) / 0.0)]).total := by decide
  have hnone := (h [(0, 0.0 / 0.0)]).2 hpos
  revert hnone
  decide

end Unnest.Shares
