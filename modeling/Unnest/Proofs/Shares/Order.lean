import Unnest.Indexed
import Unnest.Proofs.Checked
import Unnest.Proofs.Shares.Recording

/-!
# Contributions with their order apart

A `Tally` keeps the order of its keys beside their values, so each could have a key that the other lacks, and looking up
the value of a key in the order might fail. Recording keeps the two in step (`InStep.record`), so it never does:
whatever was recorded, the total and the shares are found, and they are those of `Shares` (`agrees_ofList`).
-/

namespace Unnest

theorem Shares.isEmpty_ofList_iff {κ α : Type} [DecidableEq κ] {calls : List (κ × α)} :
    (ofList calls).isEmpty = true ↔ calls = [] := by
  unfold isEmpty
  rw [List.isEmpty_iff, recorded_ofList]
  constructor
  · intro h
    rcases calls with _ | ⟨call, calls⟩
    · rfl
    · have hkeys := Entries.keys_latest (call :: calls)
      rw [h] at hkeys
      simp [List.eraseDups_cons] at hkeys
  · rintro rfl
    rfl

namespace Tally
variable {κ α : Type} [DecidableEq κ]

/-- The order lists the keys of the map, each once. -/
structure InStep (tally : Tally κ α) : Prop where
  order : tally.order = Entries.keys tally.raw
  nodup : (Entries.keys tally.raw).Nodup

namespace InStep
variable {tally : Tally κ α} {key : κ}

theorem record (h : tally.InStep) (key : κ) (value : α) : (tally.record key value).InStep := by
  refine ⟨?_, Entries.nodup_put _ _ h.nodup⟩
  rw [Tally.record, h.order, Entries.keys_put]
  simp only [Entries.contains, Entries.get?_isSome_iff]

theorem mem_order (h : tally.InStep) : key ∈ tally.order ↔ (Entries.get? tally.raw key).isSome := by
  rw [h.order, Entries.get?_isSome_iff]

/-- A key that is known keeps its place, a new one gets the last place. -/
theorem order_record (h : tally.InStep) (key : κ) (value : α) :
    (tally.record key value).order = if key ∈ tally.order then tally.order else tally.order ++ [key] := by
  simp only [h.mem_order]
  rfl

omit [DecidableEq κ] in
theorem isEmpty_eq (h : tally.InStep) : tally.isEmpty = tally.raw.isEmpty := by
  unfold isEmpty
  rw [h.order, Entries.keys, List.isEmpty_map]

/-- All that is looked up for the total is found. -/
theorem total [Quantity α] (h : tally.InStep) : tally.total = pure (Shares.total ⟨tally.raw⟩) := by
  have hvalues : tally.order.mapM (Entries.get? tally.raw) = some (tally.raw.map Prod.snd) := by
    rw [h.order]
    simpa using Entries.mapM_keys h.nodup fun _ value => value
  rw [Tally.total, hvalues, Checked.look_some_bind, List.foldl_map]
  rfl

/-- All that is looked up for the shares is found. -/
theorem normalized [Quantity α] (h : tally.InStep) :
    tally.normalized = pure (Shares.normalized ⟨tally.raw⟩) := by
  rw [Tally.normalized, h.total, pure_bind, Shares.normalized]
  split
  · rfl
  · rw [h.order, Entries.mapM_keys h.nodup, Checked.look_some_bind]

end InStep

/-! ### Contributions one after another -/

/-- What has been tallied after contributions were recorded one after another. -/
def ofList (calls : List (κ × α)) : Tally κ α := calls.foldl (fun tally call => tally.record call.1 call.2) {}

theorem ofList_append_singleton (calls : List (κ × α)) (call : κ × α) :
    ofList (calls ++ [call]) = (ofList calls).record call.1 call.2 := by
  unfold ofList
  rw [List.foldl_append]
  rfl

theorem inStep_ofList (calls : List (κ × α)) : (ofList calls).InStep := by
  induction calls using List.reverseRecOn with
  | nil => exact ⟨rfl, List.nodup_nil⟩
  | append_singleton calls call ih =>
    rw [ofList_append_singleton]
    exact ih.record call.1 call.2

theorem raw_ofList (calls : List (κ × α)) : (ofList calls).raw = (Shares.ofList calls).recorded := by
  induction calls using List.reverseRecOn with
  | nil => rfl
  | append_singleton calls call ih =>
    rw [ofList_append_singleton, Shares.ofList_append_singleton]
    show Entries.put (ofList calls).raw call.1 call.2 = _
    rw [ih]
    rfl

theorem isEmpty_ofList (calls : List (κ × α)) : (ofList calls).isEmpty = (Shares.ofList calls).isEmpty := by
  rw [(inStep_ofList calls).isEmpty_eq, raw_ofList]
  rfl

variable [Quantity α]

/-- The order and the map have the same keys, all that is looked up is found, and what is recorded under a key
changes nothing else. -/
theorem agrees_ofList (calls : List (κ × α)) :
    (ofList calls).order.Nodup ∧
      (∀ key, key ∈ (ofList calls).order ↔ (Entries.get? (ofList calls).raw key).isSome) ∧
      (ofList calls).total = pure (Shares.ofList calls).total ∧
      (ofList calls).normalized = pure (Shares.ofList calls).normalized ∧
      (ofList calls).isEmpty = (Shares.ofList calls).isEmpty ∧
      ((ofList calls).isEmpty = true ↔ calls = []) ∧
      ∀ key value,
        ((ofList calls).record key value).order =
            (if key ∈ (ofList calls).order then (ofList calls).order else (ofList calls).order ++ [key]) ∧
          ∀ other, Entries.get? ((ofList calls).record key value).raw other =
            if key = other then some value else Entries.get? (ofList calls).raw other := by
  have hstep := inStep_ofList calls
  have hempty := isEmpty_ofList calls
  refine ⟨?_, fun key => hstep.mem_order, ?_, ?_, hempty, ?_, fun key value => ⟨?_, fun other => ?_⟩⟩
  · rw [hstep.order]
    exact hstep.nodup
  · rw [hstep.total, raw_ofList]
  · rw [hstep.normalized, raw_ofList]
  · rw [hempty]
    exact Shares.isEmpty_ofList_iff
  · exact hstep.order_record key value
  · exact Entries.get?_put _ _ _ _

end Tally

end Unnest
