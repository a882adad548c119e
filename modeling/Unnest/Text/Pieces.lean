/-!
# Pieces of a text

`pieces` cuts a text at every occurrence of a separator, which belongs to no piece
(`not_mem_of_mem_pieces`). The pieces with the separator between them are the text again
(`intercalate_pieces`).
-/

namespace Unnest.Text
variable {α : Type} [DecidableEq α] {separator : α}

/-- The pieces of a text between the occurrences of a separator. -/
def pieces (separator : α) : List α → List (List α)
  | [] => [[]]
  | c :: cs =>
    if c = separator then [] :: pieces separator cs
    else
      match pieces separator cs with
      | [] => [[c]]
      | piece :: rest => (c :: piece) :: rest

theorem pieces_ne_nil (separator : α) (cs : List α) : pieces separator cs ≠ [] := by
  cases cs with
  | nil => simp [pieces]
  | cons c cs =>
    unfold pieces
    split
    · simp
    · split <;> simp

theorem not_mem_of_mem_pieces {cs piece : List α}
    (h : piece ∈ pieces separator cs) : separator ∉ piece := by
  induction cs generalizing piece with
  | nil =>
    rw [pieces, List.mem_singleton] at h
    simp [h]
  | cons c cs ih =>
    unfold pieces at h
    split at h
    · rcases List.mem_cons.1 h with rfl | h
      · simp
      · exact ih h
    · rename_i hc
      split at h
      · rcases List.mem_singleton.1 h with rfl
        simp [Ne.symm hc]
      · rename_i first rest hp
        rw [hp] at ih
        rcases List.mem_cons.1 h with rfl | h
        · simp [Ne.symm hc, ih List.mem_cons_self]
        · exact ih (List.mem_cons_of_mem _ h)

theorem intercalate_pieces (separator : α) (cs : List α) :
    [separator].intercalate (pieces separator cs) = cs := by
  induction cs with
  | nil => rfl
  | cons c cs ih =>
    have hne := pieces_ne_nil separator cs
    unfold pieces
    split
    · rename_i hc
      obtain ⟨first, rest, hp⟩ := List.exists_cons_of_ne_nil hne
      rw [hp] at ih ⊢
      simpa [List.intercalate, hc] using ih
    · split
      · contradiction
      · rename_i first rest hp
        rw [hp] at ih
        cases rest with
        | nil => simpa [List.intercalate] using ih
        | cons => simpa [List.intercalate] using ih

end Unnest.Text
