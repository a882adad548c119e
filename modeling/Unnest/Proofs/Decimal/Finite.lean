import Unnest.Proofs.Decimal.Rounding

/-!
# Finite results of double arithmetic

`Within k` says of an unpacked double that it is zero, or finite with its first binary digit at place `k`
or after it. Rounding moves that digit by at most one place (`within_roundWithAccuracy`), and packing keeps
it where it is (`within_unpack_pack`). So whole numbers of 64 bits that are divided by powers of ten stay
finite (`within_toFloat`, `within_div_powerOfTen`), and where they are divided more than once the places do
not add up (`within_div_greatest`). The opposite of a finite double is finite, and so is a product of two
that is not infinite.
-/

namespace Unnest.Decimal
open Float.Model Float.Model.UnpackedFloat

/-- Zero, or a finite number whose first binary digit is at place `k` or after it. -/
def Within (k : Int) : UnpackedFloat → Prop
  | .zero _ => True
  | .finite _ m e _ => m.log2 + e ≤ k
  | _ => False

theorem Within.isFinite {k : Int} {u : UnpackedFloat} (h : Within k u) : u.isFinite = true := by
  cases u <;> first | rfl | exact h.elim

/-! ### Rounding -/

theorem log2_div_two_pow_add_le {m k : Nat} (h : m / 2 ^ k ≠ 0) : (m / 2 ^ k).log2 + k ≤ m.log2 := by
  have hm : m ≠ 0 := by
    rintro rfl
    exact h (Nat.zero_div _)
  rw [Nat.le_log2 hm, Nat.pow_add]
  exact (Nat.mul_le_mul_right _ (Nat.log2_self_le h)).trans (Nat.div_mul_le_self m _)

theorem log2_le_succ {m n : Nat} (h : m ≤ n + 1) : m.log2 ≤ n.log2 + 1 := by
  have hlt : m < 2 ^ (n.log2 + 2) := by
    have hsucc := Nat.lt_log2_self (n := n)
    rw [Nat.pow_succ]
    omega
  by_cases hm : m = 0
  · rw [hm, Nat.log2_zero]
    omega
  · have := (Nat.log2_lt hm).2 hlt
    omega

theorem exists_shiftToTargetExponent (m : Nat) (e : Int) (accuracy : Accuracy) :
    ∃ k : Nat, k = (max ((m.log2 : Int) + e - 52) (-1074) - e).toNat ∧
      (shiftToTargetExponent .binary64 m e accuracy).1.mantissa = m / 2 ^ k ∧
        (shiftToTargetExponent .binary64 m e accuracy).2 = e + k := by
  have hmantissa : (ExtendedMantissa.ofMantissaAndAccuracy m accuracy).mantissa = m := by
    rcases accuracy with _ | _ | _ | _ <;> rfl
  refine ⟨_, rfl, ?_, ?_⟩
  · rw [shiftToTargetExponent, shiftToExponent, targetExponent_totalExponent, mantissa_shiftRight, hmantissa]
  · rw [shiftToTargetExponent, shiftToExponent, targetExponent_totalExponent]

/-- Rounding moves the first digit by at most one place. -/
theorem within_roundWithAccuracy (s : Sign) {m : Nat} {e k : Int} (accuracy : Accuracy) (hk : -1074 ≤ k)
    (h : (m.log2 : Int) + e ≤ k) : Within (k + 1) (roundWithAccuracy .binary64 s m e accuracy) := by
  obtain ⟨i, hi, hfloor, hexponent⟩ := exists_shiftToTargetExponent m e accuracy
  rw [roundWithAccuracy]
  generalize shiftToTargetExponent .binary64 m e accuracy = first at hfloor hexponent
  obtain ⟨em, e₁⟩ := first
  obtain ⟨j, -, hcarry, hlast⟩ := exists_shiftToTargetExponent em.roundedMantissa e₁ .exact
  simp only at hfloor hexponent ⊢
  generalize shiftToTargetExponent .binary64 em.roundedMantissa e₁ .exact = second at hcarry hlast
  obtain ⟨final, e₂⟩ := second
  simp only at hcarry hlast ⊢
  split
  · trivial
  · rename_i hfinal
    have hle := roundedMantissa_le em
    rw [hfloor] at hle
    rw [hcarry] at hfinal
    have hdrop := log2_div_two_pow_add_le hfinal
    -- the digits that are kept and one more
    have hround : (em.roundedMantissa.log2 : Int) + e₁ ≤ k + 1 := by
      rw [hexponent]
      by_cases hzero : m / 2 ^ i = 0
      · have hone : em.roundedMantissa.log2 = 0 := by
          rw [hzero] at hle
          obtain h0 | h1 : em.roundedMantissa = 0 ∨ em.roundedMantissa = 1 := by omega
          · rw [h0, Nat.log2_zero]
          · rw [h1]
            rfl
        rw [hone]
        omega
      · have hkeep := log2_div_two_pow_add_le hzero
        have hsucc := log2_le_succ hle
        omega
    rw [Within, hcarry, hlast]
    omega

/-! ### Packing -/

theorem within_unpack_packComponents (s : Sign) {b : BitVec 11} (f : BitVec 52) {k : Int} (hk : -1023 ≤ k)
    (hones : b ≠ -1#11) (hb : (b.toNat : Int) ≤ k + 1023) :
    Within k (unpack .binary64 (packComponents .binary64 s b f)) := by
  have hbias : (Format.binary64.exponentBias : Int) + Format.binary64.mantissaBitsWithoutImplicit = 1075 := rfl
  rw [UnpackedFloat.unpack]
  simp only [unpackExponent_packComponents, unpackMantissa_packComponents, hbias]
  rw [if_neg hones]
  split
  · rename_i hzero
    split
    · trivial
    · rename_i hf
      have hne : f.toNat ≠ 0 := fun h => hf (BitVec.eq_of_toNat_eq h)
      have hlog : f.toNat.log2 < 52 := (Nat.log2_lt hne).2 f.isLt
      rw [Within, hzero]
      show (f.toNat.log2 : Int) + ((0 : Nat) - 1075 + 1) ≤ k
      omega
  · have hlog : (1#1 ++ f).toNat.log2 < 53 :=
      (Nat.log2_lt (Nat.ne_of_gt (by
        rw [BitVec.toNat_append, ← Nat.shiftLeft_add_eq_or_of_lt f.isLt]
        exact Nat.lt_of_lt_of_le (by decide) (Nat.le_add_right _ _)))).2 (1#1 ++ f).isLt
    show ((1#1 ++ f).toNat.log2 : Int) + (b.toNat - 1075) ≤ k
    omega

theorem exists_pack (s : Sign) {m : Nat} {e : Int} (h : 0 < m) (he : e ≤ 971) :
    ∃ (b : BitVec 11) (f : BitVec 52), UnpackedFloat.pack .binary64 (.finite s m e h) = packComponents .binary64 s b f ∧
      b ≠ -1#11 ∧ (b.toNat = 0 ∨ m.log2 = 52 ∧ (b.toNat : Int) = e + 1075) := by
  have hbias : (Format.binary64.exponentBias : Int) + Format.binary64.mantissaBitsWithoutImplicit = 1075 := rfl
  have hbits : Format.binary64.mantissaBits = 53 := rfl
  rw [UnpackedFloat.pack]
  simp only [add_assoc, hbias, hbits]
  rw [if_neg (show ¬ 2 ^ 11 ≤ (e + 1075).toNat + 1 by omega)]
  have hexponent : (BitVec.ofNat 11 (e + 1075).toNat).toNat = (e + 1075).toNat := by
    rw [BitVec.toNat_ofNat, Nat.mod_eq_of_lt (by omega)]
  split
  · rename_i hm
    refine ⟨_, _, rfl, fun heq => ?_, ?_⟩
    · have hones : (-1#11 : BitVec 11).toNat = 2047 := rfl
      have := hexponent.symm.trans (congrArg BitVec.toNat heq)
      omega
    · show (BitVec.ofNat 11 (e + 1075).toNat).toNat = 0 ∨ _ ∧ ((BitVec.ofNat 11 (e + 1075).toNat).toNat : Int) = _
      rw [hexponent]
      omega
  · exact ⟨0#11, _, rfl, by decide, .inl rfl⟩

theorem unpack_pack_zero (s : Sign) : (pack (.zero s)).unpack = .zero s := by
  cases s <;> rfl

theorem within_unpack_pack {k : Int} (hlow : -1023 ≤ k) (hhigh : k ≤ 971) {u : UnpackedFloat} (h : Within k u) :
    Within k (pack u).unpack := by
  cases u with
  | zero s =>
    rw [unpack_pack_zero]
    trivial
  | finite s m e hm =>
    have hsize : (m.log2 : Int) + e ≤ k := h
    obtain ⟨b, f, hpack, hones, hb⟩ := exists_pack s hm (show e ≤ 971 by omega)
    rw [Float.Model.unpack, Float.Model.pack]
    simp only [hpack]
    exact within_unpack_packComponents s f hlow hones (by omega)
  | infinity s => exact h.elim
  | notANumber => exact h.elim

theorem isFinite_pack (s : Sign) {m : Nat} {e : Int} (h : 0 < m) (he : e ≤ 971) :
    (pack (.finite s m e h)).isFinite = true := by
  obtain ⟨b, f, hpack, hones, -⟩ := exists_pack s h he
  have hb : b.toNat ≠ 2047 := fun hb => hones (BitVec.eq_of_toNat_eq hb)
  have hlt := b.isLt
  rw [Float.Model.isFinite, Float.Model.unpack, Float.Model.pack]
  simp only [hpack]
  exact (within_unpack_packComponents s f (k := 1023) (by decide) hones (by omega)).isFinite

theorem isFinite_pack_zero (s : Sign) : (pack (.zero s)).isFinite = true := by
  rw [Float.Model.isFinite, unpack_pack_zero]
  rfl

theorem isFinite_pack_of_not_isInf {u : UnpackedFloat} (hu : u.isFinite = true)
    (h : (pack u).isInf = false) : (pack u).isFinite = true := by
  cases u with
  | zero s => exact isFinite_pack_zero s
  | finite s m e hm =>
    by_cases he : e ≤ 971
    · exact isFinite_pack s hm he
    -- too large a number is packed as an infinity
    · have hbias : (Format.binary64.exponentBias : Int) + Format.binary64.mantissaBitsWithoutImplicit = 1075 := rfl
      have hpack : UnpackedFloat.pack .binary64 (.finite s m e hm) = packedInfinity .binary64 s := by
        rw [UnpackedFloat.pack]
        simp only [add_assoc, hbias]
        exact if_pos (show 2 ^ 11 ≤ (e + 1075).toNat + 1 by omega)
      rw [Float.Model.isInf, Float.Model.unpack, Float.Model.pack] at h
      simp only [hpack] at h
      cases s <;> exact absurd h (by decide)
  | infinity s => cases hu
  | notANumber => cases hu

/-! ### Arithmetic -/

theorem exponent_le_of_unpack {x : Float} {s : Sign} {m : Nat} {e : Int} {h : 0 < m}
    (hx : x.toModel.unpack = .finite s m e h) : e ≤ 971 := by
  have hbias : (Format.binary64.exponentBias : Int) + Format.binary64.mantissaBitsWithoutImplicit = 1075 := rfl
  rw [Float.Model.unpack, UnpackedFloat.unpack] at hx
  simp only [hbias] at hx
  have hlt := (@unpackExponent .binary64 x.toModel.toBits.toBitVec).isLt
  have hbits : 2 ^ Format.binary64.exponentBits = 2048 := rfl
  split at hx
  · split at hx <;> cases hx
  · rename_i hones
    have hne : (@unpackExponent .binary64 x.toModel.toBits.toBitVec).toNat ≠ 2047 := fun hb =>
      hones (BitVec.eq_of_toNat_eq hb)
    split at hx
    · rename_i hzero
      split at hx
      · cases hx
      · cases hx
        rw [hzero]
        decide
    · cases hx
      omega

theorem isFinite_neg {x : Float} (h : x.isFinite = true) : (-x).isFinite = true := by
  have hneg : (-x).isFinite = (pack x.toModel.unpack.neg).isFinite := rfl
  have hx : x.toModel.unpack.isFinite = true := h
  rw [hneg]
  cases hu : x.toModel.unpack with
  | zero s => exact isFinite_pack_zero (-s)
  | finite s m e hm => exact isFinite_pack (-s) hm (exponent_le_of_unpack hu)
  | infinity s => rw [hu] at hx; cases hx
  | notANumber => rw [hu] at hx; cases hx

theorem isFinite_roundWithAccuracy (s : Sign) (m : Nat) (e : Int) (accuracy : Accuracy) :
    (roundWithAccuracy .binary64 s m e accuracy).isFinite = true :=
  (within_roundWithAccuracy s accuracy (le_max_right ((m.log2 : Int) + e) (-1074)) (le_max_left _ _)).isFinite

theorem isFinite_mul {x y : Float} (hx : x.isFinite = true) (hy : y.isFinite = true)
    (h : (x * y).isInf = false) : (x * y).isFinite = true := by
  have hmul : (x * y).toModel = pack (UnpackedFloat.mul .binary64 x.toModel.unpack y.toModel.unpack) := rfl
  have hx : x.toModel.unpack.isFinite = true := hx
  have hy : y.toModel.unpack.isFinite = true := hy
  rw [Float.isInf, hmul] at h
  rw [Float.isFinite, hmul]
  refine isFinite_pack_of_not_isInf ?_ h
  generalize x.toModel.unpack = u at hx
  generalize y.toModel.unpack = v at hy
  cases u <;> cases v <;> first | rfl | exact isFinite_roundWithAccuracy .. | (cases hx; done) | cases hy

theorem log2_divCore {m₁ m₂ : Nat} {e₁ e₂ k : Int} (h₂ : 0 < m₂) (hk : -1074 ≤ k)
    (h : (m₁.log2 : Int) + e₁ - (m₂.log2 + e₂) ≤ k) :
    ((divCore .binary64 m₁ e₁ m₂ e₂).1.log2 : Int) + (divCore .binary64 m₁ e₁ m₂ e₂).2.1 ≤ k := by
  have hmin : Format.binary64.minExponent = -1074 := rfl
  have hbits : Format.binary64.mantissaBits = 53 := rfl
  have htarget : Format.binary64.targetExponent (totalExponent m₁ e₁ - totalExponent m₂ e₂) =
      max ((m₁.log2 : Int) + e₁ - (m₂.log2 + e₂) - 53) (-1074) := by
    rw [Format.targetExponent, totalExponent, totalExponent, hmin, hbits]
    congr 1
    omega
  rw [divCore]
  simp only [htarget]
  generalize ht : min (e₁ - e₂) (max ((m₁.log2 : Int) + e₁ - (m₂.log2 + e₂) - 53) (-1074)) = t
  generalize hi : (e₁ - e₂ - t).toNat = i
  by_cases hzero : (m₁ <<< i) / m₂ = 0
  · rw [hzero, Nat.log2_zero]
    omega
  · have hquotient : 2 ^ ((m₁ <<< i / m₂).log2 + m₂.log2) < 2 ^ (m₁.log2 + 1 + i) := by
      calc 2 ^ ((m₁ <<< i / m₂).log2 + m₂.log2) ≤ m₁ <<< i / m₂ * m₂ := by
            rw [Nat.pow_add]
            exact Nat.mul_le_mul (Nat.log2_self_le hzero) (Nat.log2_self_le (Nat.ne_of_gt h₂))
        _ ≤ m₁ * 2 ^ i := by
            rw [← Nat.shiftLeft_eq]
            exact Nat.div_mul_le_self _ _
        _ < 2 ^ (m₁.log2 + 1 + i) := by
            rw [Nat.pow_add]
            exact Nat.mul_lt_mul_of_pos_right Nat.lt_log2_self (Nat.two_pow_pos i)
    have hlog := (Nat.pow_lt_pow_iff_right Nat.one_lt_two).1 hquotient
    omega

/-- Dividing by a number whose first digit is at place `i` moves the first digit by so many places, up to
the one of rounding. -/
theorem within_div {x y : Float} {s : Sign} {m : Nat} {e i k : Int} {h : 0 < m} (hlow : 0 ≤ k - i + 1)
    (hhigh : k - i + 1 ≤ 971) (hx : Within k x.toModel.unpack) (hy : y.toModel.unpack = .finite s m e h)
    (hplace : i ≤ (m.log2 : Int) + e) : Within (k - i + 1) (x / y).toModel.unpack := by
  have hdiv : (x / y).toModel = pack (UnpackedFloat.div .binary64 x.toModel.unpack y.toModel.unpack) := rfl
  rw [hdiv, hy]
  refine within_unpack_pack (by omega) hhigh ?_
  cases hu : x.toModel.unpack with
  | zero s => trivial
  | finite s₁ m₁ e₁ h₁ =>
    rw [hu] at hx
    have hsize : (m₁.log2 : Int) + e₁ ≤ k := hx
    have hquotient :
        ((divCore .binary64 m₁ e₁ m e).1.log2 : Int) + (divCore .binary64 m₁ e₁ m e).2.1 ≤ k - i :=
      log2_divCore h (by omega) (by omega)
    exact within_roundWithAccuracy (s₁ / s) (divCore .binary64 m₁ e₁ m e).2.2 (by omega) hquotient
  | infinity s => rw [hu] at hx; exact hx.elim
  | notANumber => rw [hu] at hx; exact hx.elim

/-! ### Powers of ten and whole numbers -/

/-- Whether a double is finite and two or more. -/
def isTwoOrMore (x : Float) : Bool :=
  match x.toModel.unpack with
  | .finite _ m e _ => 1 ≤ (m.log2 : Int) + e
  | _ => false

theorem isTwoOrMore_powerOfTen : isTwoOrMore (Json.Numeral.powerOfTen 308) = true := by
  decide +kernel

theorem within_div_greatest {x : Float} {k : Int} (hlow : 0 ≤ k) (hhigh : k ≤ 971)
    (hx : Within k x.toModel.unpack) : Within k (x / Json.Numeral.powerOfTen 308).toModel.unpack := by
  -- the place that rounding may add is the one that a divisor of two or more takes away
  have h := isTwoOrMore_powerOfTen
  rw [isTwoOrMore] at h
  split at h
  · rename_i hunpack
    have hdiv := within_div (k := k) (by omega) (by omega) hx hunpack (of_decide_eq_true h)
    rwa [sub_add_cancel] at hdiv
  · cases h

theorem within_div_powerOfTen {x : Float} {i : Int} {k : Nat} (hlow : 0 ≤ i) (hhigh : i ≤ 970)
    (hx : Within i x.toModel.unpack) (hk : k ≤ 308) :
    Within (i + 1) (x / Json.Numeral.powerOfTen k).toModel.unpack := by
  obtain ⟨s, m, e, h, hunpack, hm, he, -⟩ := atMost_powerOfTen hk
  have hdiv := within_div (i := 0) (by omega) (by omega) hx hunpack (by omega)
  rwa [sub_zero] at hdiv

theorem isFinite_powerOfTen {k : Nat} (hk : k ≤ 308) : (Json.Numeral.powerOfTen k).isFinite = true := by
  obtain ⟨s, m, e, h, hunpack, -⟩ := atMost_powerOfTen hk
  rw [Float.isFinite, Float.Model.isFinite, hunpack]
  rfl

/-- Whole numbers of 64 bits have at most 65 binary digits when they are rounded. -/
theorem within_toFloat (n : UInt64) : Within 65 n.toFloat.toModel.unpack := by
  by_cases hn : n.toNat = 0
  · obtain rfl : n = 0 := UInt64.toNat_inj.1 hn
    have hzero : (0 : UInt64).toFloat.toModel.unpack = .zero .positive := unpack_pack_zero .positive
    rw [hzero]
    trivial
  · obtain ⟨s, m, e, h, hunpack, hm, -, hle⟩ := atMost_toFloat hn
    rw [hunpack, Within, hm]
    have hn64 : (n.toNat : ℚ) ≤ 2 ^ 64 := by exact_mod_cast n.toNat_lt.le
    have habove : above (2 ^ 64) ≤ 2 ^ (65 : ℤ) := by norm_num [above]
    have hlow : (2 : ℚ) ^ (52 : ℤ) ≤ m := by
      have := Nat.log2_self_le (Nat.ne_of_gt h)
      rw [hm] at this
      exact_mod_cast this
    have hpow : (2 : ℚ) ^ (52 + e) ≤ 2 ^ (65 : ℤ) := by
      rw [zpow_add₀ two_ne_zero]
      exact (mul_le_mul_of_nonneg_right hlow (by positivity)).trans
        (hle.trans ((above_mono hn64).trans habove))
    have := (zpow_le_zpow_iff_right₀ one_lt_two).1 hpow
    omega

end Unnest.Decimal
