import Unnest.Proofs.Schema

/-!
# Schemas of rows after rows

The schema of some rows is found without looking at the rows after them: more rows only add fields at its end, and
those are the fields of the schema that the later rows have by themselves, without the keys that are known
(`discover_append`). So a key has the type of its scalar in the first row that has one (`get?_discover`), and rows
without a payload could as well be left out (`discover_filter`).
-/

namespace Unnest.Schema
variable {α : Type} [Quantity α]

theorem discover_append (rows later : List (Option Payload)) (excluded : List String) :
    discover α (rows ++ later) excluded = discover α rows excluded ++
      (discover α later excluded).filter fun field => field.1 ∉ Entries.keys (discover α rows excluded) := by
  simp only [mem_keys_discover]
  rw [discover_eq_firsts, discover_eq_firsts, discover_eq_firsts, occurrences_append, Entries.firsts_append,
    Entries.firsts_filter fun key => key ∉ Entries.keys (occurrences α rows excluded)]

theorem get?_discover (rows : List (Option Payload)) (excluded : List String) (key : String) :
    Entries.get? (discover α rows excluded) key = rows.findSome? fun row => row.bind fun payload =>
      (Entries.get? (payload.scalars (α := α) excluded) key).map Scalar.type := by
  rw [discover_eq_firsts, Entries.get?_firsts, get?_occurrences]

theorem discover_filter (rows : List (Option Payload)) (excluded : List String) :
    discover α (rows.filter Option.isSome) excluded = discover α rows excluded := by
  induction rows using List.reverseRecOn with
  | nil => rfl
  | append_singleton rows row ih =>
    rw [List.filter_append]
    rcases row with _ | payload
    · rw [discover_append_none, ← ih]
      simp
    · rw [discover_append_some, ← ih, ← discover_append_some]
      simp

/-- A schema of rows after rows, the first scalar of a key, and rows without a payload. -/
theorem discover_composes (α : Type) [Quantity α] (rows later : List (Option Payload)) (excluded : List String) :
    discover α (rows ++ later) excluded = discover α rows excluded ++
        (discover α later excluded).filter (fun field => field.1 ∉ Entries.keys (discover α rows excluded)) ∧
      (Entries.keys (discover α rows excluded)).Nodup ∧
      (∀ key, Entries.get? (discover α rows excluded) key = rows.findSome? fun row => row.bind fun payload =>
        (Entries.get? (payload.scalars (α := α) excluded) key).map Scalar.type) ∧
      discover α (rows.filter Option.isSome) excluded = discover α rows excluded :=
  ⟨discover_append rows later excluded, nodup_discover rows excluded, get?_discover rows excluded,
    discover_filter rows excluded⟩

end Unnest.Schema
