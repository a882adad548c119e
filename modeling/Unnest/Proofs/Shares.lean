import Unnest.Proofs.Entries
import Unnest.Shares

/-!
# Shares by key

`Shares.normalized` lists the percentages of a row; `Shares.share?` is the percentage of one key. Keys that
were not recorded have none, and if the total is zero or less no key has one.
-/

namespace Unnest.Shares
variable {κ α : Type} [DecidableEq κ] [Quantity α] {shares : Shares κ α} {key : κ}

/-- The contribution of a key as a percentage of the total. -/
def share? (shares : Shares κ α) (key : κ) : Option α :=
  if Quantity.isNonpositive shares.total then none
  else (Entries.get? shares.recorded key).map fun value => Quantity.percentage value shares.total

theorem get?_normalized (shares : Shares κ α) (key : κ) :
    Entries.get? (shares.normalized.getD []) key = shares.share? key := by
  rw [normalized, share?]
  split
  · rfl
  · rw [Option.getD_some]
    exact Entries.get?_map_value (fun value => Quantity.percentage value shares.total) _ _

omit [DecidableEq κ] in
theorem nodup_normalized (h : (Entries.keys shares.recorded).Nodup) :
    (Entries.keys (shares.normalized.getD [])).Nodup := by
  rw [normalized]
  split
  · exact List.nodup_nil
  · rw [Option.getD_some, Entries.keys, List.map_map]
    exact h

theorem share?_eq_some {share : α} (h : shares.share? key = some share) :
    ∃ value, Entries.get? shares.recorded key = some value ∧ share = Quantity.percentage value shares.total := by
  rw [share?] at h
  split at h
  · cases h
  · obtain ⟨value, hv, rfl⟩ := Option.map_eq_some_iff.1 h
    exact ⟨value, hv, rfl⟩

theorem mem_keys_of_share? (h : (shares.share? key).isSome) : key ∈ Entries.keys shares.recorded := by
  rw [share?] at h
  split at h
  · cases h
  · rwa [Option.isSome_map, Entries.get?_isSome_iff] at h

end Unnest.Shares
