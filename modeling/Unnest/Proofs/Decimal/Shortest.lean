import Mathlib.Algebra.Order.Field.Power
import Mathlib.Data.Rat.Cast.Order
import Mathlib.Tactic.Linarith
import Mathlib.Tactic.NormNum
import Mathlib.Tactic.Positivity
import Mathlib.Tactic.Ring
import Unnest.Decimal.Shortest

/-!
# How large shortest decimals are

The shortest decimal of a double lies below the upper end of the interval that rounds to the double, or it
is the significand itself (`Magnitude.shortest_cases`), so it cannot be much larger than the double. Its
power of ten is never far out of range, and dropping the zeros at its end does not change its value
(`Scaled.dropZeros_spec`).
-/

namespace Unnest.Decimal

/-- The number that a decimal stands for. -/
def Scaled.value (d : Scaled) : ℚ := d.digits * 10 ^ d.exponent

/-- The upper end of the reals that round to a double: half a unit above it. -/
def Magnitude.upper (m : Magnitude) : ℚ := (4 * m.significand + 2 : ℕ) * 2 ^ (m.exponent - 2)

namespace Magnitude

theorem scales_pos (binary decimal : Int) :
    0 < (scales binary decimal).1 ∧ 0 < (scales binary decimal).2 :=
  ⟨Nat.mul_pos (Nat.pow_pos (by decide)) (Nat.pow_pos (by decide)),
    Nat.mul_pos (Nat.pow_pos (by decide)) (Nat.pow_pos (by decide))⟩

theorem pow_toNat (b : ℚ) (hb : b ≠ 0) (n : Int) : b ^ n.toNat = b ^ n * b ^ (-n).toNat := by
  rw [← zpow_natCast, ← zpow_natCast, ← zpow_add₀ hb]
  congr 1
  omega

/-- The factors of a comparison have the ratio of the two scales. -/
theorem scales_ratio (binary decimal : Int) :
    ((scales binary decimal).1 : ℚ) * 10 ^ decimal = (scales binary decimal).2 * 2 ^ binary := by
  have htwo := pow_toNat 2 two_ne_zero binary
  have hten := pow_toNat 10 (by norm_num) decimal
  simp only [scales, Nat.pow_eq]
  push_cast
  rw [htwo, hten]
  ring

theorem le_of_scales {binary decimal : Int} {a b : Nat}
    (h : b * (scales binary decimal).2 ≤ a * (scales binary decimal).1) :
    (b : ℚ) * 10 ^ decimal ≤ a * 2 ^ binary := by
  have hq : (b : ℚ) * (scales binary decimal).2 ≤ a * (scales binary decimal).1 := by exact_mod_cast h
  have hpos : (0 : ℚ) < (scales binary decimal).2 := by exact_mod_cast (scales_pos binary decimal).2
  refine le_of_mul_le_mul_right ?_ hpos
  calc (b : ℚ) * 10 ^ decimal * (scales binary decimal).2
      = b * (scales binary decimal).2 * 10 ^ decimal := by ring
    _ ≤ a * (scales binary decimal).1 * 10 ^ decimal := mul_le_mul_of_nonneg_right hq (by positivity)
    _ = a * 2 ^ binary * (scales binary decimal).2 := by rw [mul_assoc, scales_ratio]; ring

/-- A hit on a grid is a positive decimal below the upper end. -/
theorem onGrid?_eq_some {m : Magnitude} {grid : Int} {d : Scaled} (h : m.onGrid? grid = some d) :
    d.exponent = grid ∧ d.digits ≠ 0 ∧ d.value ≤ m.upper := by
  obtain ⟨n, rfl, hn, hle⟩ : ∃ n, d = ⟨n, grid⟩ ∧ n ≠ 0 ∧
      n * (scales (m.exponent - 2) grid).2 ≤ (4 * m.significand + 2) * (scales (m.exponent - 2) grid).1 := by
    have hinside : ∀ {low high n : Nat} {closed : Prop} [Decidable closed],
        (if closed then low ≤ n && n ≤ high else low < n && n < high) = true → n ≤ high := by
      intro low high n closed _ h
      split at h <;> simp only [Bool.and_eq_true, decide_eq_true_eq] at h <;> omega
    unfold onGrid? at h
    simp only at h
    split at h
    · rename_i hbelow habove
      obtain ⟨hb, hne⟩ := Bool.and_eq_true_iff.1 hbelow
      cases h
      split
      · exact ⟨_, rfl, by simpa using hne, hinside hb⟩
      · exact ⟨_, rfl, Nat.succ_ne_zero _, hinside habove⟩
    · rename_i hbelow habove
      obtain ⟨hb, hne⟩ := Bool.and_eq_true_iff.1 hbelow
      cases h
      exact ⟨_, rfl, by simpa using hne, hinside hb⟩
    · rename_i hbelow habove
      cases h
      exact ⟨_, rfl, Nat.succ_ne_zero _, hinside habove⟩
    · cases h
  exact ⟨rfl, hn, le_of_scales hle⟩

theorem search_eq_some {m : Magnitude} {order : Int} (tries : Nat) (count : Int) {d : Scaled}
    (h : search m order tries count = some d) :
    order - count - tries < d.exponent ∧ d.digits ≠ 0 ∧ d.value ≤ m.upper := by
  induction tries generalizing count with
  | zero => cases h
  | succ tries ih =>
    rw [search] at h
    split at h
    · rename_i found hfound
      obtain rfl := Option.some.inj h
      obtain ⟨hgrid, hdigits, hle⟩ := onGrid?_eq_some hfound
      exact ⟨by omega, hdigits, hle⟩
    · obtain ⟨hgrid, hdigits, hle⟩ := ih (count + 1) h
      exact ⟨by omega, hdigits, hle⟩

theorem le_order {m : Magnitude} (hm : m.significand ≠ 0) (he : -1074 ≤ m.exponent) : -400 ≤ m.order := by
  obtain ⟨hup, hdown⟩ := scales_pos m.exponent 0
  have hsmall : (scales m.exponent 0).2 < 10 ^ 400 := by
    have htwo : (scales m.exponent 0).2 = 2 ^ (-m.exponent).toNat := Nat.mul_one _
    have hlimit : 2 ^ 1074 < 10 ^ 400 := by decide +kernel
    rw [htwo]
    exact (Nat.pow_le_pow_right Nat.two_pos (by omega)).trans_lt hlimit
  have hnumerator := Nat.mul_pos (Nat.pos_of_ne_zero hm) hup
  simp only [order]
  split
  · omega
  · generalize m.significand * (scales m.exponent 0).1 = numerator at *
    generalize (scales m.exponent 0).2 = down at *
    have hlength : (Nat.toDigits 10 ((down + numerator - 1) / numerator - 1)).length ≤ 400 := by
      have hdiv : (down + numerator - 1) / numerator ≤ down :=
        Nat.div_le_of_le_mul (by
          obtain ⟨a, rfl⟩ : ∃ a, numerator = a + 1 := ⟨numerator - 1, by omega⟩
          obtain ⟨b, rfl⟩ : ∃ b, down = b + 1 := ⟨down - 1, by omega⟩
          have hproduct : (a + 1) * (b + 1) = a * b + a + b + 1 := by ring
          omega)
      rw [Nat.length_toDigits_le_iff (by decide) (by decide)]
      omega
    omega

/-- The shortest decimal of a double lies below the upper end of its interval, or is its significand. -/
theorem shortest_cases {m : Magnitude} (hm : m.significand ≠ 0) (he : -1074 ≤ m.exponent) :
    m.shortest.digits ≠ 0 ∧ -418 ≤ m.shortest.exponent ∧ m.shortest.value ≤ max m.upper m.significand := by
  rw [shortest]
  cases hsearch : search m m.order 17 1 with
  | none => exact ⟨hm, by simp, by simp [Scaled.value]⟩
  | some d =>
    obtain ⟨hexponent, hdigits, hle⟩ := search_eq_some 17 1 hsearch
    have := le_order hm he
    exact ⟨hdigits, by simp only [Option.getD_some]; omega, le_max_of_le_left hle⟩

end Magnitude

namespace Scaled

theorem dropZeros_spec (fuel : Nat) {d : Scaled} (hd : d.digits ≠ 0) :
    (dropZeros fuel d).value = d.value ∧ (dropZeros fuel d).digits ≠ 0 ∧
      d.exponent ≤ (dropZeros fuel d).exponent := by
  induction fuel generalizing d with
  | zero => exact ⟨rfl, hd, le_rfl⟩
  | succ fuel ih =>
    rw [dropZeros]
    split
    · rename_i hzero
      have hdiv : d.digits / 10 * 10 = d.digits := Nat.div_mul_cancel (Nat.dvd_of_mod_eq_zero hzero.2)
      obtain ⟨hvalue, hdigits, hexponent⟩ := @ih ⟨d.digits / 10, d.exponent + 1⟩ (by simp only; omega)
      refine ⟨hvalue.trans ?_, hdigits, by simp only at hexponent; omega⟩
      have hdivq : ((d.digits / 10 : ℕ) : ℚ) * 10 = d.digits := by exact_mod_cast hdiv
      simp only [value]
      rw [← hdivq, zpow_add₀ (by norm_num), zpow_one]
      ring
    · exact ⟨rfl, hd, le_rfl⟩

end Scaled

end Unnest.Decimal
