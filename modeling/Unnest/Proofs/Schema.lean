import Unnest.Schema
import Unnest.Proofs.Entries

/-!
# Schemas as first occurrences

`Schema.occurrences` lists every scalar of every payload with its type, row by row and in document order.
A schema is the first occurrence of every key in that list (`discover_eq_firsts`), so looking a key up in
the schema or in the list is the same.
-/

namespace Unnest
variable {α : Type}

/-- The scalar keys of a payload with the types of their values, in document order. -/
def Payload.scalarFields (α : Type) [Quantity α] (payload : Payload) (excluded : List String) :
    List (String × ScalarType) :=
  (payload.scalars (α := α) excluded).map fun (key, value) => (key, value.type)

namespace Schema

/-- The scalar keys of rows with the types of their values; rows without a payload have none. -/
def occurrences (α : Type) [Quantity α] (rows : List (Option Payload)) (excluded : List String) :
    List (String × ScalarType) :=
  rows.flatMap fun row => row.elim [] fun payload => payload.scalarFields α excluded

theorem add_firsts (l : List (String × ScalarType)) (key : String) (type : ScalarType) :
    add (Entries.firsts l) key type = Entries.firsts (l ++ [(key, type)]) := by
  rw [add, Entries.firsts_append_singleton, Entries.contains]
  simp only [Entries.get?_isSome_iff, Entries.mem_keys_firsts]

theorem addRow_firsts (l : List (String × ScalarType)) (scalars : Entries String (Scalar α)) :
    addRow (Entries.firsts l) scalars =
      Entries.firsts (l ++ scalars.map fun (key, value) => (key, value.type)) := by
  unfold addRow
  induction scalars generalizing l with
  | nil => simp
  | cons entry scalars ih =>
    obtain ⟨key, value⟩ := entry
    show List.foldl _ (add (Entries.firsts l) key value.type) scalars = _
    rw [add_firsts, ih, List.append_assoc]
    rfl

variable [Quantity α]

theorem occurrences_append (rows later : List (Option Payload)) (excluded : List String) :
    occurrences α (rows ++ later) excluded = occurrences α rows excluded ++ occurrences α later excluded :=
  List.flatMap_append

theorem get?_occurrences (rows : List (Option Payload)) (excluded : List String) (key : String) :
    Entries.get? (occurrences α rows excluded) key = rows.findSome? fun row => row.bind fun payload =>
      (Entries.get? (payload.scalars (α := α) excluded) key).map Scalar.type := by
  induction rows with
  | nil => rfl
  | cons row rows ih =>
    unfold occurrences at ih ⊢
    rw [List.flatMap_cons, Entries.get?_append, ih, List.findSome?_cons]
    rcases row with _ | payload
    · rfl
    · have hget : Entries.get? (payload.scalarFields α excluded) key =
          (Entries.get? (payload.scalars (α := α) excluded) key).map Scalar.type := Entries.get?_map_value _ _ _
      simp only [Option.elim_some, Option.bind_some, hget]
      cases Entries.get? (payload.scalars (α := α) excluded) key <;> rfl

theorem discover_append_none (rows : List (Option Payload)) (excluded : List String) :
    discover α (rows ++ [none]) excluded = discover α rows excluded := by
  simp [discover]

theorem discover_append_some (rows : List (Option Payload)) (payload : Payload) (excluded : List String) :
    discover α (rows ++ [some payload]) excluded =
      (discover α rows excluded).addRow (payload.scalars (α := α) excluded) := by
  simp [discover]

theorem discover_eq_firsts (rows : List (Option Payload)) (excluded : List String) :
    discover α rows excluded = Entries.firsts (occurrences α rows excluded) := by
  induction rows using List.reverseRecOn with
  | nil => rfl
  | append_singleton rows row ih =>
    have hrow : occurrences α [row] excluded = row.elim [] fun payload => payload.scalarFields α excluded := by
      simp [occurrences]
    rw [occurrences_append, hrow]
    cases row with
    | none => rw [discover_append_none, ih, Option.elim_none, List.append_nil]
    | some payload => rw [discover_append_some, ih, addRow_firsts]; rfl

theorem mem_keys_discover {rows : List (Option Payload)} {excluded : List String} {key : String} :
    key ∈ Entries.keys (discover α rows excluded) ↔ key ∈ Entries.keys (occurrences α rows excluded) := by
  rw [discover_eq_firsts, Entries.mem_keys_firsts]

theorem nodup_discover (rows : List (Option Payload)) (excluded : List String) :
    (Entries.keys (discover α rows excluded)).Nodup := by
  rw [discover_eq_firsts]
  exact Entries.nodup_firsts _

end Schema

end Unnest
