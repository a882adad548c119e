import Mathlib.Algebra.Order.BigOperators.Group.List
import Mathlib.Algebra.Order.Field.Rat
import Mathlib.Algebra.BigOperators.Ring.List
import Mathlib.Tactic.Linarith
import Mathlib.Tactic.FieldSimp
import Mathlib.Tactic.Positivity
import Mathlib.Tactic.Ring
import Unnest.Decimal.Shortest
import Unnest.Proofs.Shares

/-!
# Exact shares

The rational numbers are quantities as well: a JSON number stands for the exact value of its double, and
sums and percentages are not rounded. Here the shares of a row add up to one hundred, however they are
spread over columns, as long as every contribution has a column (`Shares.sum_share?`).
-/

namespace Unnest

/-- The exact value of a finite double, read off its bits. -/
def Decimal.valueOfBits (bits : Nat) : ℚ :=
  let m := Magnitude.ofBits bits
  let size : ℚ := (m.significand * 2 ^ m.exponent.toNat : Nat) / (2 ^ (-m.exponent).toNat : Nat)
  if 2 ^ 63 ≤ bits then -size else size

/-- Exact arithmetic. -/
instance : Quantity ℚ where
  ofNumber n := Decimal.valueOfBits n.toFloat.toBits.toNat
  zero := 0
  emptyTotal := 0
  add := (· + ·)
  percentage part total := part / total * 100
  isNonpositive total := total ≤ 0

namespace Entries
variable {κ : Type} [DecidableEq κ]

/-- A sum over entries is a sum over their keys, and keys without an entry do not matter. -/
theorem sum_get? {l : List (κ × ℚ)} {keys' : List κ} (hl : (keys l).Nodup) (hk : keys'.Nodup)
    (hsub : ∀ key ∈ keys l, key ∈ keys') :
    (keys'.map fun key => (get? l key).getD 0).sum = (l.map Prod.snd).sum := by
  induction l with
  | nil => simp
  | cons entry l ih =>
    obtain ⟨hnew, hl⟩ := List.nodup_cons.1 hl
    have hnone : get? l entry.1 = none := get?_eq_none_iff.2 hnew
    have hsplit : ∀ key, (get? (entry :: l) key).getD 0 =
        if key = entry.1 then entry.2 else (get? l key).getD 0 := by
      intro key
      by_cases h : entry.1 = key
      · simp [get?, h]
      · simp [get?, h, Ne.symm h]
    have hone : keys'.count entry.1 = 1 :=
      List.count_eq_one_of_mem hk (hsub entry.1 List.mem_cons_self)
    simp only [hsplit]
    rw [List.sum_map_ite_eq, hone, hnone, ih hl fun key hkey => hsub key (List.mem_cons_of_mem _ hkey),
      List.map_cons, List.sum_cons, one_nsmul, Option.getD_none, sub_zero]

end Entries

namespace Shares
variable {κ : Type} [DecidableEq κ] {shares : Shares κ ℚ} {key : κ}

omit [DecidableEq κ] in
theorem total_eq_sum (shares : Shares κ ℚ) : shares.total = (shares.recorded.map Prod.snd).sum := by
  rw [List.sum_eq_foldl, List.foldl_map]
  rfl

theorem share?_of_pos (h : 0 < shares.total) :
    shares.share? key = (Entries.get? shares.recorded key).map fun value => value / shares.total * 100 := by
  have hn : ¬ Quantity.isNonpositive shares.total := fun hd => not_le.2 h (of_decide_eq_true hd)
  rw [share?, if_neg hn]
  rfl

theorem share?_of_nonpos (h : ¬ 0 < shares.total) : shares.share? key = none := by
  have hn : Quantity.isNonpositive shares.total := decide_eq_true (not_lt.1 h)
  rw [share?, if_pos hn]

/-- The shares of a positive total add up to one hundred. -/
theorem sum_share? {keys' : List κ} (hl : (Entries.keys shares.recorded).Nodup) (hk : keys'.Nodup)
    (hsub : ∀ key ∈ Entries.keys shares.recorded, key ∈ keys') (h : 0 < shares.total) :
    (keys'.map fun key => (shares.share? key).getD 0).sum = 100 := by
  have hscale : ∀ key, (shares.share? key).getD 0 =
      (Entries.get? shares.recorded key).getD 0 * (1 / shares.total * 100) := by
    intro key
    rw [share?_of_pos h]
    cases Entries.get? shares.recorded key with
    | none => simp
    | some value => simp only [Option.map_some, Option.getD_some]; ring
  calc (keys'.map fun key => (shares.share? key).getD 0).sum
      = (keys'.map fun key => (Entries.get? shares.recorded key).getD 0 * (1 / shares.total * 100)).sum := by
        simp only [hscale]
    _ = (keys'.map fun key => (Entries.get? shares.recorded key).getD 0).sum * (1 / shares.total * 100) :=
        List.sum_map_mul_right _ _ _
    _ = shares.total * (1 / shares.total * 100) := by
        rw [Entries.sum_get? hl hk hsub, ← total_eq_sum]
    _ = 100 := by
        have hne : shares.total ≠ 0 := ne_of_gt h
        field_simp

/-- The shares of contributions that are not negative lie between zero and one hundred. -/
theorem share?_mem_Icc (hpos : ∀ entry ∈ shares.recorded, 0 ≤ entry.2) :
    0 ≤ (shares.share? key).getD 0 ∧ (shares.share? key).getD 0 ≤ 100 := by
  by_cases h : 0 < shares.total
  · rw [share?_of_pos h]
    cases hv : Entries.get? shares.recorded key with
    | none => norm_num
    | some value =>
      have hmem : (key, value) ∈ shares.recorded := Entries.mem_of_get? hv
      have hle : value ≤ shares.total := by
        rw [total_eq_sum]
        refine List.single_le_sum ?_ value (List.mem_map_of_mem (f := Prod.snd) hmem)
        rintro x hx
        obtain ⟨entry, he, rfl⟩ := List.mem_map.1 hx
        exact hpos entry he
      have hvalue : 0 ≤ value := hpos _ hmem
      have hdiv : value / shares.total ≤ 1 := (div_le_one h).2 hle
      rw [Option.map_some, Option.getD_some]
      constructor
      · positivity
      · linarith
  · rw [share?_of_nonpos h]
    norm_num

end Shares

end Unnest
