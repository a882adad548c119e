import Mathlib.Tactic.SplitIfs
import Unnest.Proofs.Json.Grammar

/-!
# Tokens between values

Readers of lists and of objects pass over space and take a comma, a colon or a closing bracket. Whatever they took
stands in front of what they leave.
-/

namespace Unnest.Json
open Text

/-! ### Space -/

theorem isSpace_char {c : Char} : isSpace (.char c) = true ↔ c ∈ [' ', '\n', '\t', '\r'] := by
  simp [isSpace, or_assoc]

theorem IsSpace.isSpace_map {gap : List Char} (h : IsSpace gap) : ∀ s ∈ gap.map Symbol.char, isSpace s = true := by
  intro s hs
  obtain ⟨c, hc, rfl⟩ := List.mem_map.1 hs
  exact isSpace_char.2 (h c hc)

theorem isSpace_nil : IsSpace [] := nofun

theorem IsSpace.append {gap gap' : List Char} (h : IsSpace gap) (h' : IsSpace gap') : IsSpace (gap ++ gap') :=
  fun c hc => (List.mem_append.1 hc).elim (h c) (h' c)

/-- An input starts with the space that is skipped. -/
theorem exists_skipSpace (input : List Symbol) : ∃ gap, IsSpace gap ∧ input = gap.map .char ++ skipSpace input := by
  induction input with
  | nil => exact ⟨[], isSpace_nil, rfl⟩
  | cons s input ih =>
    cases hs : isSpace s with
    | false => exact ⟨[], isSpace_nil, (skipSpace_cons hs input).symm⟩
    | true =>
      cases s with
      | stray byte => simp [isSpace] at hs
      | char c =>
        obtain ⟨gap, hgap, hinput⟩ := ih
        have hskip : skipSpace (.char c :: input) = skipSpace input := List.dropWhile_cons_of_pos hs
        refine ⟨c :: gap, List.forall_mem_cons.2 ⟨isSpace_char.1 hs, hgap⟩, ?_⟩
        rw [hskip, List.map_cons, List.cons_append, ← hinput]

/-! ### What stands between items -/

section
variable {first : Bool} {input rest start : List Symbol}

theorem exists_of_nextItem_close (h : nextItem first input = .ok (false, rest)) :
    ∃ gap, IsSpace gap ∧ input = gap.map .char ++ .char ']' :: rest := by
  obtain ⟨gap, hgap, hinput⟩ := exists_skipSpace input
  refine ⟨gap, hgap, ?_⟩
  rw [nextItem] at h
  split at h
  · cases h
  · rename_i hskip
    cases h
    rwa [hskip] at hinput
  · split at h
    · cases h
    · split at h <;> cases h
  · split at h <;> cases h

theorem exists_of_nextItem_first (h : nextItem true input = .ok (true, start)) :
    ∃ gap, IsSpace gap ∧ input = gap.map .char ++ start := by
  obtain ⟨gap, hgap, hinput⟩ := exists_skipSpace input
  refine ⟨gap, hgap, ?_⟩
  rw [nextItem] at h
  split at h
  · cases h
  · cases h
  · rename_i hskip
    cases h
    rwa [hskip] at hinput
  · cases h
    exact hinput

theorem exists_of_nextItem_later (h : nextItem false input = .ok (true, start)) :
    ∃ gap gap', IsSpace gap ∧ IsSpace gap' ∧ input = gap.map .char ++ .char ',' :: (gap'.map .char ++ start) := by
  obtain ⟨gap, hgap, hinput⟩ := exists_skipSpace input
  rw [nextItem] at h
  split at h
  · cases h
  · cases h
  · rename_i after hskip
    obtain ⟨gap', hgap', hafter⟩ := exists_skipSpace after
    refine ⟨gap, gap', hgap, hgap', ?_⟩
    rw [hskip, hafter] at hinput
    simp only [Bool.false_eq_true, if_false] at h
    split at h
    · cases h
    · cases h
    · cases h
      exact hinput
  · cases h

theorem exists_of_nextKey_close (h : nextKey first input = .ok (false, rest)) :
    ∃ gap, IsSpace gap ∧ input = gap.map .char ++ .char '}' :: rest := by
  obtain ⟨gap, hgap, hinput⟩ := exists_skipSpace input
  refine ⟨gap, hgap, ?_⟩
  rw [nextKey] at h
  split at h
  · cases h
  · rename_i hskip
    cases h
    rwa [hskip] at hinput
  · split at h
    · cases h
    · split at h <;> cases h
  · split at h <;> cases h
  · cases h

theorem exists_of_nextKey_first (h : nextKey true input = .ok (true, start)) :
    ∃ gap, IsSpace gap ∧ input = gap.map .char ++ .char '"' :: start := by
  obtain ⟨gap, hgap, hinput⟩ := exists_skipSpace input
  refine ⟨gap, hgap, ?_⟩
  rw [nextKey] at h
  split at h
  · cases h
  · cases h
  · cases h
  · rename_i hskip
    cases h
    rwa [hskip] at hinput
  · cases h

theorem exists_of_nextKey_later (h : nextKey false input = .ok (true, start)) :
    ∃ gap gap', IsSpace gap ∧ IsSpace gap' ∧
      input = gap.map .char ++ .char ',' :: (gap'.map .char ++ .char '"' :: start) := by
  obtain ⟨gap, hgap, hinput⟩ := exists_skipSpace input
  rw [nextKey] at h
  split at h
  · cases h
  · cases h
  · rename_i after hskip
    obtain ⟨gap', hgap', hafter⟩ := exists_skipSpace after
    refine ⟨gap, gap', hgap, hgap', ?_⟩
    simp only [Bool.false_eq_true, if_false] at h
    split at h
    · cases h
    · rename_i hquote
      cases h
      rwa [hskip, hafter, hquote] at hinput
    · cases h
    · cases h
  · cases h
  · cases h

theorem exists_of_readColon (h : readColon input = .ok rest) :
    ∃ gap, IsSpace gap ∧ input = gap.map .char ++ .char ':' :: rest := by
  obtain ⟨gap, hgap, hinput⟩ := exists_skipSpace input
  refine ⟨gap, hgap, ?_⟩
  rw [readColon] at h
  split at h
  · cases h
  · rename_i hskip
    cases h
    rwa [hskip] at hinput
  · cases h

theorem eq_of_readIdentifier {letters : List Char} (h : readIdentifier letters input = .ok rest) :
    input = letters.map .char ++ rest := by
  induction letters generalizing input with
  | nil =>
    cases h
    rfl
  | cons c letters ih =>
    cases input with
    | nil => cases h
    | cons s input =>
      rw [readIdentifier] at h
      split_ifs at h with hs
      rw [hs, ih h, List.map_cons, List.cons_append]

end

end Unnest.Json
