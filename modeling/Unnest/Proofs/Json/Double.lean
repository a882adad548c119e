import Unnest.Json.Printer
import Unnest.Proofs.Decimal.Rounding
import Unnest.Proofs.Decimal.Shortest
import Unnest.Proofs.Json.Numeral

/-!
# Written doubles are numerals in range

The text of a finite double is read to its end as a numeral (`exists_numeral`). The reader does not round
to the nearest double, so it has to be shown that what it computes does not overflow: it rounds three times
at most, and a numeral that stays three roundings away from the largest double is in range
(`Numeral.toFloat?_isSome`). The text of a double stays below the upper end of its interval
(`spellsAtMost_magnitude`), which is far enough for all but the six largest doubles; these are read one by
one.
-/

namespace Unnest.Json
open Text Decimal

namespace Numeral

theorem scale?_isSome_of_neg (fuel : Nat) (x : Float) {power : Int} (h : power < 0) :
    (scale? fuel x power).isSome := by
  induction fuel generalizing x power with
  | zero => rfl
  | succ fuel ih =>
    rw [scale?]
    split
    · rw [if_neg (by omega)]
      rfl
    · split
      · rfl
      · rw [if_neg (by omega)]
        exact ih _ (by omega)

theorem isInf_zero_mul {y : Float} {q : ℚ} (hy : AtMost y q) :
    ((0 : UInt64).toFloat * y).isInf = false := by
  obtain ⟨s, m, e, h, hy, -⟩ := hy
  have hmul : ((0 : UInt64).toFloat * y).isInf
      = (Float.Model.pack (Float.Model.UnpackedFloat.mul .binary64 (.zero .positive) y.toModel.unpack)).isInf :=
    rfl
  have hzero : ∀ s, (Float.Model.pack (.zero s)).isInf = false := by
    intro s
    cases s <;> decide +kernel
  rw [hmul, hy]
  exact hzero _

theorem eq_zero_of_power {s k : Nat} (hk : 308 < k) (h : (s : ℚ) * 10 ^ k < 2 ^ (1024 : ℤ)) : s = 0 := by
  by_contra hne
  have hlimit : 2 ^ 1024 < 10 ^ 309 := by decide +kernel
  have hlimitq : (2 : ℚ) ^ (1024 : ℤ) < 10 ^ 309 := by exact_mod_cast hlimit
  have hpow : (10 : ℚ) ^ 309 ≤ 10 ^ k := pow_le_pow_right₀ (by norm_num) (by omega)
  have hone : (1 : ℚ) ≤ s := by exact_mod_cast Nat.one_le_iff_ne_zero.2 hne
  have hbound : (10 : ℚ) ^ k ≤ s * 10 ^ k := le_mul_of_one_le_left (by positivity) hone
  exact absurd h (not_lt.2 ((hlimitq.le.trans hpow).trans hbound))

/-- A numeral that stays away from the largest double is in range. -/
theorem toFloat?_isSome {numeral : Numeral} (hs : numeral.significand < limit)
    (hvalue : numeral.value * (1 + 2 ^ (-52 : ℤ)) ^ 3 < 2 ^ (1024 : ℤ)) : numeral.toFloat?.isSome := by
  obtain ⟨s, power, whole⟩ := numeral
  simp only [toFloat?, value] at *
  have hnat : s.toUInt64.toNat = s := Nat.mod_eq_of_lt hs
  by_cases hneg : power < 0
  · exact scale?_isSome_of_neg _ _ hneg
  obtain ⟨k, rfl⟩ := Int.eq_ofNat_of_zero_le (not_lt.1 hneg)
  rw [zpow_natCast] at hvalue
  rw [scale?]
  by_cases hk : k ≤ 308
  · have hfinite : (s.toUInt64.toFloat * powerOfTen k).isInf = false := by
      by_cases hzero : s = 0
      · subst hzero
        exact isInf_zero_mul (atMost_powerOfTen hk)
      · refine isInf_mul (atMost_toFloat (by rwa [hnat])) (atMost_powerOfTen hk) ?_
        rw [hnat]
        refine lt_of_eq_of_lt ?_ hvalue
        simp only [above]
        ring
    rw [if_pos (show (k : Int).natAbs ≤ 308 by simpa using hk), if_pos (Int.natCast_nonneg k), Int.toNat_natCast]
    simp [hfinite]
  · have hgrow : (1 : ℚ) ≤ (1 + 2 ^ (-52 : ℤ)) ^ 3 := by norm_num
    have hpos : (0 : ℚ) ≤ s * 10 ^ k := mul_nonneg (Nat.cast_nonneg s) (pow_nonneg (by norm_num) k)
    have hsize : (s : ℚ) * 10 ^ k < 2 ^ (1024 : ℤ) := (le_mul_of_one_le_right hpos hgrow).trans_lt hvalue
    have hzero : s = 0 := eq_zero_of_power (not_le.1 hk) hsize
    subst hzero
    rw [if_neg (show ¬ (k : Int).natAbs ≤ 308 by simpa using hk), if_pos (by rfl)]
    rfl

end Numeral

/-! ### Digits of decimals -/

section
variable {n : Nat}

theorem head?_toDigits (hn : n ≠ 0) : (Nat.toDigits 10 n).head? ≠ some '0' := by
  intro hhead
  obtain ⟨cs, hcs⟩ : ∃ cs, Nat.toDigits 10 n = '0' :: cs := List.head?_eq_some_iff.1 hhead
  have hd : Digits ('0' :: cs) := hcs ▸ digits_toDigits n
  have hvalue : Nat.ofDigitChars 10 cs 0 = n := by
    have := Nat.ofDigitChars_ten_toDigits (n := n)
    rwa [hcs, Nat.ofDigitChars_cons] at this
  have hlt : n < 10 ^ cs.length := by
    have := ofDigitChars_lt hd.tail 0
    rwa [hvalue, Nat.zero_add, Nat.one_mul] at this
  have hlength : (Nat.toDigits 10 n).length = cs.length + 1 := by rw [hcs]; rfl
  have hpos : 0 < cs.length := by
    rcases Nat.eq_zero_or_pos cs.length with h | h
    · rw [h] at hlt
      omega
    · exact h
  have := (Nat.length_toDigits_le_iff (by decide) hpos).2 hlt
  omega

theorem leading_of_length {ws : List Char} (hd : Digits ws) (hne : ws ≠ []) (hlead : ws.head? ≠ some '0')
    (hlength : ws.length ≤ 19) : Leading ws := by
  refine ⟨hd, hne, fun h => absurd h hlead, ?_⟩
  have hlt := ofDigitChars_lt hd 0
  have hpow : 10 ^ ws.length ≤ 10 ^ 19 := Nat.pow_le_pow_right (by decide) hlength
  have hlimit : 10 ^ 19 < Numeral.limit := by decide
  omega

theorem leading_zero : Leading ['0'] := ⟨digits_replicate_zero 1, nofun, fun _ => rfl, by decide⟩

theorem spellsAtMost_zeros {ds : List Char} (hd : Digits ds) (hne : ds ≠ []) (k : Nat) :
    SpellsAtMost (['0', '.'] ++ List.replicate k '0' ++ ds)
      (Nat.ofDigitChars 10 ds 0 * 10 ^ (-((k + ds.length : ℕ) : ℤ))) := by
  have hfs : Digits (List.replicate k '0' ++ ds) := (digits_replicate_zero k).append hd
  have h := spellsAtMost_point leading_zero hfs (by simp [hne])
  rw [List.length_append, List.length_replicate, ← List.append_assoc, Nat.ofDigitChars_append] at h
  simpa [Nat.ofDigitChars_cons] using h

theorem spellsAtMost_padded {ds : List Char} (hd : Digits ds) (hne : ds ≠ []) (hlead : ds.head? ≠ some '0')
    {k : Nat} (hlength : ds.length + k ≤ 19) :
    SpellsAtMost (ds ++ List.replicate k '0' ++ ['.', '0']) (Nat.ofDigitChars 10 ds 0 * 10 ^ k) := by
  have hleading : Leading (ds ++ List.replicate k '0') := by
    refine leading_of_length (hd.append (digits_replicate_zero k)) (by simp [hne]) ?_ ?_
    · rwa [List.head?_append_of_ne_nil _ hne]
    · rwa [List.length_append, List.length_replicate]
  have h := spellsAtMost_point hleading (digits_replicate_zero 1) nofun
  -- the zero after the point makes the digits ten times as large and counts as one place
  have hsame : ((10 ^ 1 * (10 ^ k * Nat.ofDigitChars 10 ds 0) : ℕ) : ℚ) * 10 ^ (-(1 : ℤ)) =
      Nat.ofDigitChars 10 ds 0 * 10 ^ k := by
    push_cast
    norm_num
    ring
  rwa [Nat.ofDigitChars_append, Nat.ofDigitChars_append, Nat.ofDigitChars_replicate_zero,
    Nat.ofDigitChars_replicate_zero, List.length_replicate, Nat.cast_one, hsame] at h

theorem spellsAtMost_split {ds : List Char} (hd : Digits ds) (hlead : ds.head? ≠ some '0') {k : Nat}
    (hpos : 0 < k) (hlimit : k ≤ 19) (hk : k < ds.length) :
    SpellsAtMost (ds.take k ++ ['.'] ++ ds.drop k)
      (Nat.ofDigitChars 10 ds 0 * 10 ^ (-((ds.length - k : ℕ) : ℤ))) := by
  have hne : ds ≠ [] := List.ne_nil_of_length_pos (Nat.zero_lt_of_lt hk)
  have hleading : Leading (ds.take k) := by
    refine leading_of_length (fun c hc => hd c (List.mem_of_mem_take hc)) ?_ ?_ ?_
    · simp [hne, Nat.ne_of_gt hpos]
    · rwa [List.head?_take, if_neg (Nat.ne_of_gt hpos)]
    · rw [List.length_take]
      omega
  have h := spellsAtMost_point hleading (fun c hc => hd c (List.mem_of_mem_drop hc))
    (show ds.drop k ≠ [] by simpa using hk)
  rw [List.length_drop, List.take_append_drop] at h
  simpa using h

theorem spellsAtMost_pointed (hn : n ≠ 0) {exponent power : Int}
    (hpower : power = exponent + (Nat.toDigits 10 n).length - 1) (hlow : -5 ≤ power) (hhigh : power ≤ 15) :
    SpellsAtMost (doubleLayout.pointed (Nat.toDigits 10 n) power) (n * 10 ^ exponent) := by
  have hd := digits_toDigits n
  have hne : Nat.toDigits 10 n ≠ [] := Nat.toDigits_ne_nil
  have hlead := head?_toDigits hn
  have hvalue := Nat.ofDigitChars_ten_toDigits (n := n)
  generalize Nat.toDigits 10 n = ds at *
  subst hvalue
  rw [Layout.pointed]
  split
  · have hexponent : exponent = -(((-power - 1).toNat + ds.length : ℕ) : ℤ) := by omega
    rw [hexponent]
    exact spellsAtMost_zeros hd hne _
  · simp only
    split
    · have hexponent : exponent = (power.toNat + 1 - ds.length : ℕ) := by omega
      rw [hexponent, zpow_natCast]
      exact spellsAtMost_padded hd hne hlead (by omega)
    · have hexponent : exponent = -((ds.length - (power.toNat + 1) : ℕ) : ℤ) := by omega
      rw [hexponent]
      exact spellsAtMost_split hd hlead (Nat.succ_pos _) (by omega) (by omega)

theorem spellsAtMost_scientific (hn : n ≠ 0) {exponent power : Int}
    (hpower : power = exponent + (Nat.toDigits 10 n).length - 1) (hlimit : power.natAbs < Numeral.powerLimit) :
    SpellsAtMost (scientific (Nat.toDigits 10 n) power) (n * 10 ^ exponent) := by
  have hd := digits_toDigits n
  have hne : Nat.toDigits 10 n ≠ [] := Nat.toDigits_ne_nil
  have hlead := head?_toDigits hn
  have hvalue := Nat.ofDigitChars_ten_toDigits (n := n)
  generalize Nat.toDigits 10 n = ds at *
  obtain ⟨c, cs, rfl⟩ := List.exists_cons_of_ne_nil hne
  have hleading : Leading [c] :=
    leading_of_length (fun d hd' => hd d (by simpa using Or.inl (List.mem_singleton.1 hd'))) nofun
      (by simpa using hlead) (Nat.le_add_left 1 18)
  rw [scientific]
  by_cases hone : cs = []
  · subst hone
    have h := spellsAtMost_power hleading hlimit
    have hexponent : power = exponent := by simpa using hpower
    rw [hvalue] at h
    simpa [powerText, hexponent] using h
  · have h := spellsAtMost_point_power hleading hd.tail hone hlimit
    have hexponent : power - cs.length = exponent := by
      rw [List.length_cons] at hpower
      omega
    have hlong : ¬ (c :: cs).length ≤ 1 := by
      have := List.length_pos_iff.2 hone
      rw [List.length_cons]
      omega
    rw [show [c] ++ cs = c :: cs from rfl, hvalue, hexponent] at h
    rw [if_neg hlong]
    simpa [powerText] using h

theorem pow_le_of_toDigits (hn : n ≠ 0) : 10 ^ ((Nat.toDigits 10 n).length - 1) ≤ n := by
  have hpos : 0 < (Nat.toDigits 10 n).length := Nat.length_toDigits_pos
  by_contra hlt
  rcases Nat.eq_zero_or_pos ((Nat.toDigits 10 n).length - 1) with hzero | hlong
  · rw [hzero] at hlt
    omega
  · have := (Nat.length_toDigits_le_iff (by decide) hlong).2 (not_le.1 hlt)
    omega

end

theorem SpellsAtMost.mono {text : List Char} {p q : ℚ} (h : SpellsAtMost text p) (hpq : p ≤ q) :
    SpellsAtMost text q := by
  obtain ⟨numeral, hspells, hwhole, hlimit, hvalue⟩ := h
  exact ⟨numeral, hspells, hwhole, hlimit, hvalue.trans hpq⟩

/-! ### Finite doubles -/

/-- The bits of a double that is neither infinite nor not-a-number. -/
def FiniteBits (bits : Nat) : Prop := bits / 2 ^ 52 % 2 ^ 11 ≠ 2047

open Float.Model Float.Model.UnpackedFloat in
theorem finiteBits_toBits {x : Float} (hx : x.isFinite = true) : FiniteBits x.toBits.toNat := by
  intro hbits
  have hexponent : @unpackExponent .binary64 x.toModel.toBits.toBitVec = -1#11 := by
    apply BitVec.eq_of_toNat_eq
    rw [unpackExponent, BitVec.toNat_cast, BitVec.extractLsb_toNat, Nat.shiftRight_eq_div_pow]
    exact hbits
  have hfinite : x.toModel.unpack.isFinite = true := hx
  rw [Float.Model.unpack, UnpackedFloat.unpack] at hfinite
  simp only [hexponent, if_true] at hfinite
  split at hfinite <;> cases hfinite

section
variable {bits : Nat}

theorem significand_ofBits_lt (bits : Nat) : (Magnitude.ofBits bits).significand < 2 ^ 53 := by
  have := Nat.mod_lt bits (Nat.two_pow_pos 52)
  simp only [Magnitude.ofBits, Nat.pow_eq]
  split <;> simp only <;> omega

theorem exponent_ofBits (h : FiniteBits bits) :
    -1074 ≤ (Magnitude.ofBits bits).exponent ∧ (Magnitude.ofBits bits).exponent ≤ 971 := by
  have := Nat.mod_lt (bits / 2 ^ 52) (Nat.two_pow_pos 11)
  rw [FiniteBits] at h
  simp only [Magnitude.ofBits, Nat.pow_eq]
  split <;> simp only <;> omega

theorem significand_ofBits_ne_zero (h : bits % 2 ^ 63 ≠ 0) : (Magnitude.ofBits bits).significand ≠ 0 := by
  simp only [Magnitude.ofBits, Nat.pow_eq]
  split <;> simp only <;> omega

theorem upper_le {m : Magnitude} {a : Nat} {e : Int} (ha : m.significand ≤ a) (he : m.exponent ≤ e) :
    m.upper ≤ (4 * a + 2 : ℕ) * 2 ^ (e - 2) := by
  have hpow : (2 : ℚ) ^ (m.exponent - 2) ≤ 2 ^ (e - 2) := zpow_le_zpow_right₀ one_le_two (by omega)
  have hcast : ((4 * m.significand + 2 : ℕ) : ℚ) ≤ (4 * a + 2 : ℕ) := by exact_mod_cast (by omega)
  exact mul_le_mul hcast hpow (by positivity) (by positivity)

theorem max_upper_lt (h : FiniteBits bits) :
    max (Magnitude.ofBits bits).upper (Magnitude.ofBits bits).significand < 2 ^ (1024 : ℤ) := by
  have hsig := significand_ofBits_lt bits
  have hsmall : (2 : ℚ) ^ (53 : ℤ) < 2 ^ (1024 : ℤ) := zpow_lt_zpow_right₀ one_lt_two (by decide)
  refine max_lt ((upper_le (Nat.le_of_lt_succ hsig) (exponent_ofBits h).2).trans_lt ?_) ?_
  · have hsplit : (2 : ℚ) ^ (1024 : ℤ) = 2 ^ 55 * 2 ^ (971 - 2 : ℤ) := by
      rw [← zpow_natCast, ← zpow_add₀ two_ne_zero]
      norm_num
    rw [hsplit]
    refine mul_lt_mul_of_pos_right ?_ (by positivity)
    norm_num
  · exact lt_trans (by exact_mod_cast hsig) hsmall

theorem power_lt {d : Scaled} (hdigits : d.digits ≠ 0) (hvalue : d.value < 2 ^ (1024 : ℤ)) :
    d.exponent + (Nat.toDigits 10 d.digits).length - 1 < 400 := by
  have hpos : 0 < (Nat.toDigits 10 d.digits).length := Nat.length_toDigits_pos
  have hlow : (10 : ℚ) ^ ((Nat.toDigits 10 d.digits).length - 1) ≤ d.digits := by
    exact_mod_cast pow_le_of_toDigits hdigits
  have hsplit : (10 : ℚ) ^ (d.exponent + (Nat.toDigits 10 d.digits).length - 1) =
      10 ^ ((Nat.toDigits 10 d.digits).length - 1) * 10 ^ d.exponent := by
    rw [← zpow_natCast, ← zpow_add₀ (by norm_num)]
    congr 1
    omega
  have hlimit : 2 ^ 1024 < 10 ^ 400 := by decide +kernel
  have hlimitq : (2 : ℚ) ^ (1024 : ℤ) < 10 ^ (400 : ℤ) := by exact_mod_cast hlimit
  have hpow : (10 : ℚ) ^ (d.exponent + (Nat.toDigits 10 d.digits).length - 1) < 10 ^ (400 : ℤ) := by
    rw [hsplit]
    exact (mul_le_mul_of_nonneg_right hlow (by positivity)).trans_lt (hvalue.trans hlimitq)
  exact (zpow_lt_zpow_iff_right₀ (by norm_num)).1 hpow

theorem spellsAtMost_magnitude (h : FiniteBits bits) :
    SpellsAtMost (doubleLayout.magnitude bits)
      (max (Magnitude.ofBits bits).upper (Magnitude.ofBits bits).significand) := by
  rw [Layout.magnitude]
  by_cases hzero : bits % Nat.pow 2 63 = 0
  · rw [if_pos hzero, if_pos (show doubleLayout.keepsFraction = true from rfl)]
    refine (spellsAtMost_point leading_zero (digits_replicate_zero 1) nofun).mono ?_
    have hnum : Nat.ofDigitChars 10 (['0'] ++ List.replicate 1 '0') 0 = 0 := by decide
    rw [hnum, Nat.cast_zero, zero_mul]
    exact le_max_of_le_right (Nat.cast_nonneg _)
  · rw [if_neg hzero]
    obtain ⟨hdigits, hexponent, hvalue⟩ :=
      Magnitude.shortest_cases (significand_ofBits_ne_zero hzero) (exponent_ofBits h).1
    obtain ⟨hsame, hdigits, hraise⟩ := Scaled.dropZeros_spec 20 hdigits
    rw [digitsOfBits]
    simp only
    have hle := hsame.trans_le hvalue
    have hhigh := power_lt hdigits (hle.trans_lt (max_upper_lt h))
    generalize Scaled.dropZeros 20 (Magnitude.ofBits bits).shortest = d at *
    have hpos : 0 < (Nat.toDigits 10 d.digits).length := Nat.length_toDigits_pos
    obtain ⟨power, hpower⟩ : ∃ power, power = d.exponent + (Nat.toDigits 10 d.digits).length - 1 := ⟨_, rfl⟩
    simp only [← hpower]
    rw [show doubleLayout.positional = some (-5, 15) from rfl]
    simp only
    split
    · rename_i hrange
      exact (spellsAtMost_pointed hdigits hpower hrange.1 hrange.2).mono hle
    · refine (spellsAtMost_scientific hdigits hpower ?_).mono hle
      have hlimit : Numeral.powerLimit = 2147483648 := by decide
      omega

end

/-- Away from the six largest doubles, three roundings do not reach infinity. -/
theorem mul_lt_of_not_largest {bits : Nat} (h : FiniteBits bits)
    (htop : ¬ ((Magnitude.ofBits bits).exponent = 971 ∧ 2 ^ 53 - 7 < (Magnitude.ofBits bits).significand)) :
    max (Magnitude.ofBits bits).upper (Magnitude.ofBits bits).significand * (1 + 2 ^ (-52 : ℤ)) ^ 3
      < 2 ^ (1024 : ℤ) := by
  have hexponent := (exponent_ofBits h).2
  have hsig := significand_ofBits_lt bits
  have hsplit : (2 : ℚ) ^ (1024 : ℤ) = 2 ^ 55 * 2 ^ (971 - 2 : ℤ) := by
    rw [← zpow_natCast, ← zpow_add₀ two_ne_zero]
    norm_num
  have hupper : (Magnitude.ofBits bits).upper ≤ (2 ^ 55 - 26) * 2 ^ (971 - 2 : ℤ) := by
    by_cases htwo : (Magnitude.ofBits bits).exponent = 971
    · refine (upper_le (a := 2 ^ 53 - 7) (by omega) hexponent).trans (le_of_eq ?_)
      norm_num
    · refine (upper_le (a := 2 ^ 53 - 1) (e := 970) (by omega) (by omega)).trans ?_
      have hhalf : (2 : ℚ) ^ (971 - 2 : ℤ) = 2 * 2 ^ (970 - 2 : ℤ) := by
        rw [← zpow_one_add₀ two_ne_zero]
        norm_num
      rw [hhalf, ← mul_assoc]
      refine mul_le_mul_of_nonneg_right ?_ (by positivity)
      norm_num
  have hsmall : ((Magnitude.ofBits bits).significand : ℚ) ≤ (2 ^ 55 - 26) * 2 ^ (971 - 2 : ℤ) := by
    have hle : ((Magnitude.ofBits bits).significand : ℚ) ≤ 2 ^ 53 := by exact_mod_cast hsig.le
    have hone : (1 : ℚ) ≤ 2 ^ (971 - 2 : ℤ) := one_le_zpow₀ one_le_two (by decide)
    calc ((Magnitude.ofBits bits).significand : ℚ) ≤ (2 ^ 55 - 26) * 1 := hle.trans (by norm_num)
      _ ≤ (2 ^ 55 - 26) * 2 ^ (971 - 2 : ℤ) := mul_le_mul_of_nonneg_left hone (by norm_num)
  rw [hsplit]
  refine lt_of_le_of_lt (mul_le_mul_of_nonneg_right (max_le hupper hsmall) (by positivity)) ?_
  rw [mul_right_comm]
  refine mul_lt_mul_of_pos_right ?_ (by positivity)
  norm_num

/-- Whether the text of a double is in range when it is read. -/
def inRange (bits : Nat) : Bool :=
  match Numeral.read ((doubleLayout.magnitude bits).map .char) with
  | .ok (numeral, _) => numeral.toFloat?.isSome
  | .error _ => false

theorem inRange_largest : ∀ k < 6, inRange (2047 * 2 ^ 52 - 1 - k) = true := by decide +kernel

theorem magnitude_mod (layout : Layout) (bits : Nat) : layout.magnitude bits = layout.magnitude (bits % 2 ^ 63) := by
  have hm : Magnitude.ofBits (bits % 2 ^ 63) = Magnitude.ofBits bits := by
    simp only [Magnitude.ofBits, Nat.pow_eq]
    rw [show bits % 2 ^ 63 % 2 ^ 52 = bits % 2 ^ 52 by omega,
      show bits % 2 ^ 63 / 2 ^ 52 % 2 ^ 11 = bits / 2 ^ 52 % 2 ^ 11 by omega]
  have hdigits : digitsOfBits (bits % 2 ^ 63) = digitsOfBits bits := by
    rw [digitsOfBits, digitsOfBits, hm]
  have hzero : bits % 2 ^ 63 % Nat.pow 2 63 = bits % Nat.pow 2 63 := Nat.mod_mod bits (2 ^ 63)
  rw [Layout.magnitude, Layout.magnitude, hdigits, hzero]

/-- The text of a finite double is a numeral in range. -/
theorem exists_numeral {bits : Nat} (h : FiniteBits bits) :
    ∃ numeral, Spells (doubleLayout.magnitude bits) numeral ∧ numeral.whole = false ∧
      numeral.toFloat?.isSome := by
  obtain ⟨numeral, hspells, hwhole, hlimit, hvalue⟩ := spellsAtMost_magnitude h
  refine ⟨numeral, hspells, hwhole, ?_⟩
  have hexponent := (exponent_ofBits h).2
  have hsig := significand_ofBits_lt bits
  by_cases htop : (Magnitude.ofBits bits).exponent = 971 ∧ 2 ^ 53 - 7 < (Magnitude.ofBits bits).significand
  -- three roundings could carry the six largest doubles over the limit, so their texts are computed
  · obtain ⟨k, hk, hbits⟩ : ∃ k < 6, bits % 2 ^ 63 = 2047 * 2 ^ 52 - 1 - k := by
      refine ⟨2 ^ 53 - 1 - (Magnitude.ofBits bits).significand, by omega, ?_⟩
      simp only [Magnitude.ofBits, Nat.pow_eq] at htop ⊢
      split at htop <;> simp only at htop <;> split <;> simp only <;> omega
    have hrange := inRange_largest k hk
    rw [← hbits, inRange, ← magnitude_mod] at hrange
    have hread := hspells [] ends_nil
    rw [List.append_nil] at hread
    rwa [hread] at hrange
  · refine Numeral.toFloat?_isSome hlimit (lt_of_le_of_lt (mul_le_mul_of_nonneg_right hvalue (by positivity)) ?_)
    exact mul_lt_of_not_largest h htop

end Unnest.Json
