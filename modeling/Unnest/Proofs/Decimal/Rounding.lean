import Mathlib
import Unnest.Json.Numeral

/-!
# Rounding in double arithmetic

A whole number that becomes a double, and a product of doubles, is at most one unit in the last place
larger than it should be. `AtMost x q` says that `x` is a double not below one and at most `q`; from it
follow bounds on converted whole numbers and powers of ten, and `isInf_mul`: a product whose exact value
stays one unit away from the largest double is not infinite. A full unit is more than rounding to nearest
needs, and keeps the ties out of the argument.
-/

namespace Unnest.Decimal
open Float.Model Float.Model.UnpackedFloat

/-- What a number that is rounded to a double does not exceed. -/
def above (q : ℚ) : ℚ := q * (1 + 2 ^ (-52 : ℤ))

theorem above_mono {p q : ℚ} (h : p ≤ q) : above p ≤ above q :=
  mul_le_mul_of_nonneg_right h (by positivity)

/-! ### Shifting and rounding a significand -/

theorem mantissa_shiftRight (em : ExtendedMantissa) (k : Nat) : (em >>> k).mantissa = em.mantissa / 2 ^ k := by
  induction k with
  | zero => exact (Nat.div_one _).symm
  | succ k ih =>
    have hstep : (em >>> (k + 1)).mantissa = (em >>> k).mantissa / 2 := rfl
    rw [hstep, ih, Nat.div_div_eq_div_mul, Nat.pow_succ]

theorem le_roundedMantissa (em : ExtendedMantissa) : em.mantissa ≤ em.roundedMantissa := by
  rcases em with ⟨m, _ | _, _ | _⟩
  · exact Nat.le_refl m
  · exact Nat.le_refl m
  · exact Nat.le_add_right m _
  · exact Nat.le_add_right m 1

theorem roundedMantissa_le (em : ExtendedMantissa) : em.roundedMantissa ≤ em.mantissa + 1 := by
  rcases em with ⟨m, _ | _, _ | _⟩
  · exact Nat.le_add_right m 1
  · exact Nat.le_add_right m 1
  · exact Nat.add_le_add_left (Nat.le_of_lt_succ (Nat.mod_lt m Nat.two_pos)) m
  · exact Nat.le_refl (m + 1)

theorem targetExponent_totalExponent (m : Nat) (e : Int) :
    Format.binary64.targetExponent (totalExponent m e) = max ((m.log2 : Int) + e - 52) (-1074) := by
  have hmin : Format.binary64.minExponent = -1074 := rfl
  have hbits : Format.binary64.mantissaBits = 53 := rfl
  rw [Format.targetExponent, totalExponent, hmin, hbits]
  congr 1
  omega

/-- The exponent of a number with enough digits is the place of its 53rd. -/
theorem shiftToTargetExponent_eq {v k : Nat} {e : Int} (hv : v.log2 = 52 + k) (he : -1074 ≤ e + k) :
    shiftToTargetExponent .binary64 v e .exact = (ExtendedMantissa.mk v false false >>> k, e + k) := by
  have htarget : Format.binary64.targetExponent (totalExponent v e) = e + k := by
    rw [targetExponent_totalExponent, hv]
    omega
  have hshift : (e + (k : Int) - e).toNat = k := by omega
  rw [shiftToTargetExponent, htarget, shiftToExponent, hshift]
  rfl

theorem roundWithAccuracy_of_shifts (s : Sign) {v : Nat} {e : Int} {first second : ExtendedMantissa × Int}
    (hfirst : shiftToTargetExponent .binary64 v e .exact = first)
    (hsecond : shiftToTargetExponent .binary64 first.1.roundedMantissa first.2 .exact = second)
    (h : 0 < second.1.mantissa) :
    roundWithAccuracy .binary64 s v e .exact = .finite s second.1.mantissa second.2 h := by
  subst hfirst hsecond
  exact dif_neg (Nat.ne_of_gt h)

/-- One unit more than what shifting keeps is within the bound, where enough digits are kept. -/
theorem floor_succ_le_above {v k : Nat} (e : Int) (h : 2 ^ 52 ≤ v / 2 ^ k) :
    ((v / 2 ^ k + 1 : ℕ) : ℚ) * 2 ^ (e + k) ≤ above (v * 2 ^ e) := by
  have hdiv : (v / 2 ^ k + 1) * 2 ^ k ≤ v + 2 ^ k := by
    rw [Nat.add_mul, Nat.one_mul]
    exact Nat.add_le_add_right (Nat.div_mul_le_self v (2 ^ k)) _
  have hstep : 2 ^ 52 * 2 ^ k ≤ v := (Nat.le_div_iff_mul_le (Nat.two_pow_pos k)).1 h
  have hdivq : (((v / 2 ^ k + 1 : ℕ) : ℚ)) * 2 ^ k ≤ v + 2 ^ k := by exact_mod_cast hdiv
  have hstepq : (2 ^ 52 : ℚ) * 2 ^ k ≤ v := by exact_mod_cast hstep
  calc ((v / 2 ^ k + 1 : ℕ) : ℚ) * 2 ^ (e + k) = ((v / 2 ^ k + 1 : ℕ) : ℚ) * 2 ^ k * 2 ^ e := by
        rw [zpow_add₀ two_ne_zero, zpow_natCast]
        ring
    _ ≤ v * (1 + 2 ^ (-52 : ℤ)) * 2 ^ e := by
        refine mul_le_mul_of_nonneg_right ?_ (by positivity)
        norm_num at hdivq hstepq ⊢
        linarith
    _ = above (v * 2 ^ e) := by
        rw [above]
        ring

theorem exists_roundWithAccuracy (s : Sign) {v k : Nat} {e : Int} (hv : v.log2 = 52 + k) (he : -1074 ≤ e + k) :
    ∃ (m : Nat) (e' : Int) (h : 0 < m),
      roundWithAccuracy .binary64 s v e .exact = .finite s m e' h ∧ m.log2 = 52 ∧ e + k ≤ e' ∧
        (m : ℚ) * 2 ^ e' ≤ above (v * 2 ^ e) := by
  have hv0 : v ≠ 0 := by
    rintro rfl
    rw [Nat.log2_zero] at hv
    omega
  have hlow : 2 ^ 52 ≤ v / 2 ^ k := by
    rw [Nat.le_div_iff_mul_le (Nat.two_pow_pos k), ← Nat.pow_add, ← hv]
    exact Nat.log2_self_le hv0
  have hhigh : v / 2 ^ k < 2 ^ 53 := by
    rw [Nat.div_lt_iff_lt_mul (Nat.two_pow_pos k), ← Nat.pow_add, show 53 + k = v.log2 + 1 by omega]
    exact Nat.lt_log2_self
  have hunit := floor_succ_le_above e hlow
  have hfirst := shiftToTargetExponent_eq hv he
  have hfloor : (ExtendedMantissa.mk v false false >>> k).mantissa = v / 2 ^ k := mantissa_shiftRight _ k
  have hr1 := le_roundedMantissa (ExtendedMantissa.mk v false false >>> k)
  have hr2 := roundedMantissa_le (ExtendedMantissa.mk v false false >>> k)
  rw [hfloor] at hr1 hr2
  generalize ExtendedMantissa.mk v false false >>> k = em at hfirst hr1 hr2
  -- rounding up can carry into a 54th digit, which the second shift drops
  by_cases hr : em.roundedMantissa < 2 ^ 53
  · have hlog : em.roundedMantissa.log2 = 52 + 0 :=
      (Nat.log2_eq_iff (by omega)).2 ⟨Nat.le_trans hlow hr1, hr⟩
    have hsecond := shiftToTargetExponent_eq hlog (show -1074 ≤ e + k + (0 : Nat) by omega)
    have hm : (ExtendedMantissa.mk em.roundedMantissa false false >>> 0).mantissa = em.roundedMantissa := rfl
    refine ⟨em.roundedMantissa, e + k, by omega, ?_, hlog, le_rfl, le_trans ?_ hunit⟩
    · rw [roundWithAccuracy_of_shifts s hfirst hsecond (by rw [hm]; omega)]
      congr 1
      omega
    · exact mul_le_mul_of_nonneg_right (by exact_mod_cast hr2) (by positivity)
  · have hcarry : em.roundedMantissa = 2 ^ 53 := by omega
    have hlog : em.roundedMantissa.log2 = 52 + 1 := by
      rw [hcarry]
      exact Nat.log2_two_pow
    have hsecond := shiftToTargetExponent_eq hlog (show -1074 ≤ e + k + (1 : Nat) by omega)
    have hm : (ExtendedMantissa.mk em.roundedMantissa false false >>> 1).mantissa = 2 ^ 52 := by
      rw [hcarry]
      rfl
    refine ⟨2 ^ 52, e + k + 1, by positivity, ?_, Nat.log2_two_pow, by omega, le_trans ?_ hunit⟩
    · rw [roundWithAccuracy_of_shifts s hfirst hsecond (by rw [hm]; positivity)]
      congr 1
    · have hfull : ((2 ^ 53 : ℕ) : ℚ) ≤ ((v / 2 ^ k + 1 : ℕ) : ℚ) := by exact_mod_cast hcarry ▸ hr2
      calc ((2 ^ 52 : ℕ) : ℚ) * 2 ^ (e + k + 1) = ((2 ^ 53 : ℕ) : ℚ) * 2 ^ (e + k) := by
            rw [zpow_add₀ two_ne_zero]
            push_cast
            ring
        _ ≤ ((v / 2 ^ k + 1 : ℕ) : ℚ) * 2 ^ (e + k) := mul_le_mul_of_nonneg_right hfull (by positivity)

/-! ### Packing -/

theorem toNat_leadingOne {m : Nat} (hm : m.log2 = 52) : (1#1 ++ BitVec.ofNat 52 m).toNat = m := by
  have hm0 : m ≠ 0 := by
    rintro rfl
    rw [Nat.log2_zero] at hm
    omega
  obtain ⟨hlow, hhigh⟩ := (Nat.log2_eq_iff hm0).1 hm
  rw [BitVec.toNat_append, ← Nat.shiftLeft_add_eq_or_of_lt (BitVec.isLt _), BitVec.toNat_ofNat,
    BitVec.toNat_ofNat, Nat.shiftLeft_eq]
  omega

theorem unpack_pack (s : Sign) {m : Nat} {e : Int} (h : 0 < m) (hm : m.log2 = 52) (hlow : -1074 ≤ e)
    (hhigh : e ≤ 971) : ∃ s', (pack (.finite s m e h)).unpack = .finite s' m e h := by
  have hbias : (Format.binary64.exponentBias : Int) + Format.binary64.mantissaBitsWithoutImplicit = 1075 := rfl
  have hpack : UnpackedFloat.pack .binary64 (.finite s m e h)
      = packComponents .binary64 s (BitVec.ofNat 11 (e + 1075).toNat) (BitVec.ofNat 52 m) := by
    rw [UnpackedFloat.pack]
    simp only [add_assoc, hbias, hm]
    rw [if_neg (show ¬ 2 ^ 11 ≤ (e + 1075).toNat + 1 by omega)]
    exact if_pos rfl
  have hexponent : (BitVec.ofNat 11 (e + 1075).toNat).toNat = (e + 1075).toNat := by
    rw [BitVec.toNat_ofNat, Nat.mod_eq_of_lt (by omega)]
  have hones : BitVec.ofNat 11 (e + 1075).toNat ≠ -1#11 := fun heq => by
    have := hexponent.symm.trans (congrArg BitVec.toNat heq)
    rw [show (-1#11 : BitVec 11).toNat = 2047 from rfl] at this
    omega
  have hzero : BitVec.ofNat 11 (e + 1075).toNat ≠ 0#11 := fun heq => by
    have := hexponent.symm.trans (congrArg BitVec.toNat heq)
    rw [show (0#11 : BitVec 11).toNat = 0 from rfl] at this
    omega
  refine ⟨Sign.ofBitVec (unpackSign (packComponents .binary64 s (BitVec.ofNat 11 (e + 1075).toNat)
    (BitVec.ofNat 52 m))), ?_⟩
  rw [Float.Model.unpack, Float.Model.pack]
  simp only [hpack]
  rw [UnpackedFloat.unpack]
  simp only [unpackExponent_packComponents, unpackMantissa_packComponents, hbias]
  rw [if_neg hones, if_neg hzero]
  congr 1
  · exact toNat_leadingOne hm
  · rw [hexponent]
    omega

theorem isInf_pack (s : Sign) {m : Nat} {e : Int} (h : 0 < m) (hm : m.log2 = 52) (hlow : -1074 ≤ e)
    (hhigh : e ≤ 971) : (pack (.finite s m e h)).isInf = false := by
  obtain ⟨s', hs⟩ := unpack_pack s h hm hlow hhigh
  rw [Float.Model.isInf, hs]
  rfl

/-! ### Bounds on doubles -/

/-- The size of a double is at least one and at most `q`. -/
def AtMost (x : Float) (q : ℚ) : Prop :=
  ∃ (s : Sign) (m : Nat) (e : Int) (h : 0 < m),
    x.toModel.unpack = .finite s m e h ∧ m.log2 = 52 ∧ -52 ≤ e ∧ (m : ℚ) * 2 ^ e ≤ q

theorem toModel_toFloat {n : UInt64} (hn : n.toNat ≠ 0) :
    n.toFloat.toModel = pack (UnpackedFloat.round .binary64 .positive n.toNat 0) := by
  have hpos : compare (n.toNat : Int) 0 = .gt := Int.compare_eq_gt.2 (by omega)
  have hofInt : UnpackedFloat.ofInt .binary64 n.toNat = UnpackedFloat.round .binary64 .positive n.toNat 0 := by
    rw [UnpackedFloat.ofInt, UnpackedFloat.normalize, hpos]
    rfl
  exact congrArg pack hofInt

theorem log2_shiftLeft {n : Nat} (hn : n ≠ 0) (k : Nat) : (n <<< k).log2 = n.log2 + k := by
  have hpos := Nat.mul_pos (Nat.pos_of_ne_zero hn) (Nat.two_pow_pos k)
  rw [Nat.shiftLeft_eq, Nat.log2_eq_iff (Nat.ne_of_gt hpos), Nat.pow_add, Nat.add_right_comm, Nat.pow_add]
  exact ⟨Nat.mul_le_mul_right _ (Nat.log2_self_le hn),
    Nat.mul_lt_mul_of_pos_right Nat.lt_log2_self (Nat.two_pow_pos k)⟩

theorem exponent_le {m : Nat} {e : Int} (h : 0 < m) (hm : m.log2 = 52)
    (hsize : (m : ℚ) * 2 ^ e < 2 ^ (1024 : ℤ)) : e ≤ 971 := by
  have hlow : 2 ^ 52 ≤ m := hm ▸ Nat.log2_self_le (Nat.ne_of_gt h)
  have hlowq : (2 : ℚ) ^ (52 : ℤ) ≤ m := by exact_mod_cast hlow
  have hpow : (2 : ℚ) ^ (52 + e) < 2 ^ (1024 : ℤ) := by
    rw [zpow_add₀ two_ne_zero]
    exact lt_of_le_of_lt (mul_le_mul_of_nonneg_right hlowq (by positivity)) hsize
  have := (zpow_lt_zpow_iff_right₀ one_lt_two).1 hpow
  omega

theorem atMost_toFloat {n : UInt64} (hn : n.toNat ≠ 0) : AtMost n.toFloat (above n.toNat) := by
  have hlog : n.toNat.log2 < 64 := (Nat.log2_lt hn).2 n.toNat_lt
  have hshift : (0 - Format.binary64.targetExponent (totalExponent n.toNat 0)).toNat = 52 - n.toNat.log2 := by
    rw [targetExponent_totalExponent]
    omega
  have hv : (n.toNat <<< (52 - n.toNat.log2)).log2 = 52 + (n.toNat.log2 - 52) := by
    rw [log2_shiftLeft hn]
    omega
  obtain ⟨m, e, h, hround, hm, he, hle⟩ := exists_roundWithAccuracy .positive hv
    (show -1074 ≤ (0 : Int) - (52 - n.toNat.log2 : Nat) + (n.toNat.log2 - 52 : Nat) by omega)
  have hmodel : n.toFloat.toModel = pack (.finite .positive m e h) := by
    rw [toModel_toFloat hn, UnpackedFloat.round, UnpackedFloat.decreaseExponent]
    simp only [hshift, hround]
  have hvalue : ((n.toNat <<< (52 - n.toNat.log2) : Nat) : ℚ) * 2 ^ ((0 : Int) - (52 - n.toNat.log2 : Nat))
      = n.toNat := by
    rw [Nat.shiftLeft_eq, zero_sub, zpow_neg, zpow_natCast]
    push_cast
    exact mul_inv_cancel_right₀ (by positivity) _
  rw [hvalue] at hle
  have hhigh : e ≤ 971 := by
    have hn64 : (n.toNat : ℚ) ≤ 2 ^ 64 := by exact_mod_cast n.toNat_lt.le
    have habove : above (2 ^ 64) ≤ 2 ^ (65 : ℤ) := by norm_num [above]
    have hlimit : (2 : ℚ) ^ (65 : ℤ) < 2 ^ (1024 : ℤ) := zpow_lt_zpow_right₀ one_lt_two (by decide)
    exact exponent_le h hm ((hle.trans ((above_mono hn64).trans habove)).trans_lt hlimit)
  obtain ⟨s, hs⟩ := unpack_pack .positive h hm (by omega) hhigh
  exact ⟨s, m, e, h, hmodel ▸ hs, hm, by omega, hle⟩

/-- Whether the double for a power of ten is within the bound of its rounding. -/
def isNearPower (k : Nat) : Bool :=
  match (Json.Numeral.powerOfTen k).toModel.unpack with
  | .finite _ m e _ =>
    m.log2 = 52 ∧ -52 ≤ e ∧ m * 2 ^ e.toNat * 2 ^ 52 ≤ 10 ^ k * (2 ^ 52 + 1) * 2 ^ (-e).toNat
  | _ => false

theorem isNearPower_of_le : ∀ k ≤ 22, isNearPower k = true := by decide +kernel

theorem atMost_of_isNearPower {k : Nat} (h : isNearPower k = true) :
    AtMost (Json.Numeral.powerOfTen k) (above (10 ^ k)) := by
  rw [isNearPower] at h
  split at h
  · rename_i s m e hpos hunpack
    obtain ⟨hm, he, hle⟩ := of_decide_eq_true h
    refine ⟨s, m, e, hpos, hunpack, hm, he, ?_⟩
    have hleq : (m : ℚ) * 2 ^ e.toNat * 2 ^ 52 ≤ 10 ^ k * (2 ^ 52 + 1) * 2 ^ (-e).toNat := by exact_mod_cast hle
    have hsplit : (2 : ℚ) ^ e * 2 ^ (-e).toNat = 2 ^ e.toNat := by
      rw [← zpow_natCast, ← zpow_natCast, ← zpow_add₀ two_ne_zero]
      congr 1
      omega
    have hscale : (0 : ℚ) < 2 ^ (-e).toNat := by positivity
    refine le_of_mul_le_mul_right ?_ hscale
    rw [above, mul_assoc, hsplit]
    norm_num at hleq ⊢
    linarith
  · cases h

theorem toModel_powerOfTen {k : Nat} (hlow : 22 < k) (hhigh : k ≤ 308) :
    (Json.Numeral.powerOfTen k).toModel
      = pack (roundWithAccuracy .binary64 .positive (2 ^ 53 * 10 ^ k) (-53) .exact) := by
  have hslow : Json.Numeral.powerOfTen k = .ofModel (Float.Model.ofScientific 1 k) :=
    dif_neg (show ¬ (1 < 2 ^ 53 ∧ k ≤ 22) by omega)
  have hunpacked : UnpackedFloat.ofScientific .binary64 1 k
      = roundWithAccuracy .binary64 .positive (2 ^ 53 * 10 ^ k) (-53) .exact := by
    rw [UnpackedFloat.ofScientific, dif_neg Nat.one_ne_zero,
      if_neg (show ¬ (k : Int) > 2 ^ 11 by omega),
      if_neg (show ¬ (k : Int) < -(2 ^ 11 + (1 : Nat).log2) by omega), if_pos (Int.natCast_nonneg k)]
    rfl
  rw [hslow, Float.Model.ofScientific, hunpacked]

theorem above_power_lt {k : Nat} (hk : k ≤ 308) : above (10 ^ k) < 2 ^ (1024 : ℤ) := by
  have htop : 10 ^ 308 * (2 ^ 52 + 1) < 2 ^ 1024 * 2 ^ 52 := by decide +kernel
  have htopq : (10 : ℚ) ^ 308 * (2 ^ 52 + 1) < 2 ^ 1024 * 2 ^ 52 := by exact_mod_cast htop
  have hpow : (10 : ℚ) ^ k ≤ 10 ^ 308 := pow_le_pow_right₀ (by norm_num) hk
  refine (above_mono hpow).trans_lt ?_
  calc above (10 ^ 308) = (10 : ℚ) ^ 308 * (2 ^ 52 + 1) / 2 ^ 52 := by
        rw [above, zpow_neg, zpow_ofNat, mul_div_assoc]
        norm_num
    _ < 2 ^ 1024 := (div_lt_iff₀ (by positivity)).2 htopq
    _ = 2 ^ (1024 : ℤ) := (zpow_ofNat 2 1024).symm

theorem atMost_powerOfTen {k : Nat} (hk : k ≤ 308) :
    AtMost (Json.Numeral.powerOfTen k) (above (10 ^ k)) := by
  -- up to 22 the powers come from a table, and from there on they are rounded
  by_cases hlow : k ≤ 22
  · exact atMost_of_isNearPower (isNearPower_of_le k hlow)
  · have hmodel := toModel_powerOfTen (by omega) hk
    have hvalue : ((2 ^ 53 * 10 ^ k : ℕ) : ℚ) * 2 ^ (-53 : ℤ) = 10 ^ k := by
      push_cast
      norm_num
      ring
    have hlog : 53 ≤ (2 ^ 53 * 10 ^ k).log2 := by
      rw [Nat.le_log2 (by positivity)]
      exact Nat.le_mul_of_pos_right _ (by positivity)
    generalize 2 ^ 53 * 10 ^ k = v at hmodel hvalue hlog
    obtain ⟨m, e, h, hround, hm, he, hle⟩ := exists_roundWithAccuracy .positive
      (show v.log2 = 52 + (v.log2 - 52) by omega) (show -1074 ≤ (-53 : Int) + (v.log2 - 52 : Nat) by omega)
    rw [hvalue] at hle
    obtain ⟨s, hs⟩ := unpack_pack .positive h hm (by omega) (exponent_le h hm (hle.trans_lt (above_power_lt hk)))
    rw [hround] at hmodel
    exact ⟨s, m, e, h, hmodel ▸ hs, hm, by omega, hle⟩

theorem isInf_mul {x y : Float} {p q : ℚ} (hx : AtMost x p) (hy : AtMost y q)
    (h : above (p * q) < 2 ^ (1024 : ℤ)) : (x * y).isInf = false := by
  obtain ⟨s₁, m₁, e₁, h₁, hx, hm₁, he₁, hp⟩ := hx
  obtain ⟨s₂, m₂, e₂, h₂, hy, hm₂, he₂, hq⟩ := hy
  have hmul : (x * y).toModel = pack (roundWithAccuracy .binary64 (s₁ * s₂) (m₁ * m₂) (e₁ + e₂) .exact) := by
    have hunfold : (x * y).toModel = pack (UnpackedFloat.mul .binary64 x.toModel.unpack y.toModel.unpack) := rfl
    rw [hunfold, hx, hy]
    rfl
  have hlog : 104 ≤ (m₁ * m₂).log2 := by
    have hlow₁ : 2 ^ 52 ≤ m₁ := hm₁ ▸ Nat.log2_self_le (Nat.ne_of_gt h₁)
    have hlow₂ : 2 ^ 52 ≤ m₂ := hm₂ ▸ Nat.log2_self_le (Nat.ne_of_gt h₂)
    rw [Nat.le_log2 (Nat.ne_of_gt (Nat.mul_pos h₁ h₂)), Nat.pow_add 2 52 52]
    exact Nat.mul_le_mul hlow₁ hlow₂
  obtain ⟨m, e, hpos, hround, hm, he, hle⟩ := exists_roundWithAccuracy (s₁ * s₂)
    (show (m₁ * m₂).log2 = 52 + ((m₁ * m₂).log2 - 52) by omega)
    (show -1074 ≤ e₁ + e₂ + ((m₁ * m₂).log2 - 52 : Nat) by omega)
  have hvalue : ((m₁ * m₂ : ℕ) : ℚ) * 2 ^ (e₁ + e₂) ≤ p * q := by
    calc ((m₁ * m₂ : ℕ) : ℚ) * 2 ^ (e₁ + e₂) = m₁ * 2 ^ e₁ * (m₂ * 2 ^ e₂) := by
          rw [zpow_add₀ two_ne_zero]
          push_cast
          ring
      _ ≤ p * q := mul_le_mul hp hq (by positivity) (le_trans (by positivity) hp)
  have hhigh : e ≤ 971 := exponent_le hpos hm ((hle.trans (above_mono hvalue)).trans_lt h)
  have hinf := isInf_pack (s₁ * s₂) hpos hm (by omega) hhigh
  rw [← hround, ← hmul] at hinf
  exact hinf

end Unnest.Decimal
