import Unnest.Proofs.Decimal.Finite
import Unnest.Proofs.Json.Containers
import Unnest.Proofs.Json.Double

/-!
# Written numbers are read back

`exists_readNumber`: the text of every number but an infinity and not-a-number is read as a number to its
end, whatever follows that does not continue a number. A number of 64 bits is read back as itself
(`readNumber_natural`, `readNumber_negative`); a double need not be, since it is not read as the nearest one.
-/

namespace Unnest.Json
open Text

theorem Spells.exists_cons {text : List Char} {numeral : Numeral} (h : Spells text numeral) :
    ∃ c cs, text = c :: cs ∧ c.isDigit = true := by
  have hread := h [] ends_nil
  cases text with
  | nil => cases hread
  | cons c cs =>
    refine ⟨c, cs, rfl, ?_⟩
    by_contra hc
    have hnone : digit? (.char c) = none := if_neg hc
    rw [List.append_nil, List.map_cons, Numeral.read, hnone] at hread
    cases hread

theorem readNumber_of_spells {text : List Char} {numeral : Numeral} (h : Spells text numeral) {m : Number}
    (hm : numeral.toNumber? false = some m) {rest : List Symbol} (hrest : Ends rest) :
    readNumber (text.map .char ++ rest) = .ok (m, rest) := by
  have hread := h rest hrest
  obtain ⟨c, cs, rfl, hc⟩ := h.exists_cons
  have hminus : c ≠ '-' := by
    rintro rfl
    cases hc
  unfold readNumber
  split
  · rename_i heq
    split at heq
    · rename_i hfirst
      exact absurd (Symbol.char.inj (List.cons.inj hfirst).1) hminus
    · cases heq
      rw [hread]
      simp [hm, bind, Except.bind]

theorem readNumber_minus {text : List Char} {numeral : Numeral} (h : Spells text numeral) {m : Number}
    (hm : numeral.toNumber? true = some m) {rest : List Symbol} (hrest : Ends rest) :
    readNumber (('-' :: text).map .char ++ rest) = .ok (m, rest) := by
  have hread := h rest hrest
  rw [List.map_cons, List.cons_append, readNumber]
  simp [hread, hm, bind, Except.bind]

/-! ### Whole numbers -/

theorem spells_toDigits {n : Nat} (hn : n < Numeral.limit) : Spells (Nat.toDigits 10 n) ⟨n, 0, true⟩ := by
  have hleading : Leading (Nat.toDigits 10 n) := by
    refine ⟨digits_toDigits n, Nat.toDigits_ne_nil, fun hlead => ?_, ?_⟩
    · have hzero : n = 0 := by_contra fun h => head?_toDigits h hlead
      rw [hzero]
      rfl
    · rwa [Nat.ofDigitChars_ten_toDigits]
  have h := spells_leading hleading
  rwa [Nat.ofDigitChars_ten_toDigits] at h

theorem readNumber_natural (n : UInt64) {rest : List Symbol} (hrest : Ends rest) :
    readNumber ((Number.natural n).render.map .char ++ rest) = .ok (.natural n, rest) := by
  refine readNumber_of_spells (spells_toDigits n.toNat_lt) ?_ hrest
  rw [Numeral.toNumber?, if_pos rfl]
  simp

theorem readNumber_negative {n : Int64} (hn : n.toInt < 0) {rest : List Symbol} (hrest : Ends rest) :
    readNumber ((Number.negative n).render.map .char ++ rest) = .ok (.negative n, rest) := by
  have hlow := n.le_toInt
  have habs : n.toInt.natAbs ≤ Nat.pow 2 63 := by
    rw [Nat.pow_eq]
    omega
  have hspells : Spells (Nat.toDigits 10 n.toInt.natAbs) ⟨n.toInt.natAbs, 0, true⟩ :=
    spells_toDigits (habs.trans_lt (by decide))
  have hm : Numeral.toNumber? true ⟨n.toInt.natAbs, 0, true⟩ = some (.negative n) := by
    have hback : Int64.ofInt (-(n.toInt.natAbs : Int)) = n := by
      rw [show -(n.toInt.natAbs : Int) = n.toInt by omega, Int64.ofInt_toInt]
    rw [Numeral.toNumber?, if_pos rfl]
    simp only [Bool.not_true, Bool.false_eq_true, if_false]
    rw [if_pos ⟨by omega, habs⟩, hback]
  rw [Number.render, if_neg (by omega)]
  exact readNumber_minus hspells hm hrest

/-! ### Numbers of any kind -/

/-- Whether a number has a text. -/
def Number.isFinite : Number → Bool
  | natural _ | negative _ => true
  | real x => x.isFinite

theorem exists_toNumber? {numeral : Numeral} (h : numeral.whole = false) (hrange : numeral.toFloat?.isSome)
    (negative : Bool) : ∃ m, numeral.toNumber? negative = some m := by
  obtain ⟨y, hy⟩ := Option.isSome_iff_exists.1 hrange
  exact ⟨_, by rw [Numeral.toNumber?, h, if_neg Bool.false_ne_true, hy]; rfl⟩

theorem exists_readNumber {n : Number} (hn : n.isFinite = true) :
    ∃ m, ∀ rest, Ends rest → readNumber (n.render.map .char ++ rest) = .ok (m, rest) := by
  cases n with
  | natural n => exact ⟨_, fun _ => readNumber_natural n⟩
  | negative n =>
    by_cases hsign : n.toInt < 0
    · exact ⟨_, fun _ => readNumber_negative hsign⟩
    · have hhigh := n.toInt_lt
      refine ⟨.natural n.toInt.natAbs.toUInt64, fun rest hrest => ?_⟩
      rw [Number.render, if_pos (by omega)]
      refine readNumber_of_spells (spells_toDigits ?_) rfl hrest
      rw [Numeral.limit, Nat.pow_eq]
      omega
  | real x =>
    obtain ⟨numeral, hspells, hwhole, hrange⟩ := exists_numeral (finiteBits_toBits hn)
    have hrender : (Number.real x).render = doubleLayout.text x := if_pos hn
    rw [hrender, Decimal.Layout.text]
    split
    · obtain ⟨m, hm⟩ := exists_toNumber? hwhole hrange true
      exact ⟨m, fun rest hrest => readNumber_minus hspells hm hrest⟩
    · obtain ⟨m, hm⟩ := exists_toNumber? hwhole hrange false
      exact ⟨m, fun rest hrest => readNumber_of_spells hspells hm hrest⟩

/-! ### The numbers that are read -/

theorem Numeral.isFinite_of_scale? {fuel : Nat} {x y : Float} {power : Int}
    (hx : Decimal.Within 65 x.toModel.unpack) (h : scale? fuel x power = some y) : y.isFinite = true := by
  induction fuel generalizing x power with
  | zero =>
    cases h
    exact hx.isFinite
  | succ fuel ih =>
    rw [scale?] at h
    split at h
    · rename_i hpower
      split at h
      · simp only at h
        split at h
        · cases h
        · rename_i hinf
          cases h
          exact Decimal.isFinite_mul hx.isFinite (Decimal.isFinite_powerOfTen (by omega)) (by simpa using hinf)
      · cases h
        exact (Decimal.within_div_powerOfTen (by decide) (by decide) hx hpower).isFinite
    · split at h
      · cases h
        exact hx.isFinite
      · split at h
        · cases h
        · exact ih (Decimal.within_div_greatest (by decide) (by decide) hx) h

/-- A number as it is read: a whole number is negative only below zero, and a double is finite. -/
def Number.Canonical : Number → Prop
  | natural _ => True
  | negative n => n.toInt < 0
  | real x => x.isFinite = true

theorem canonical_of_toNumber? {negative : Bool} {numeral : Numeral} {n : Number}
    (h : numeral.toNumber? negative = some n) : n.Canonical := by
  rw [Numeral.toNumber?] at h
  split at h
  · simp only at h
    split at h
    · cases h
      trivial
    · split at h
      · rename_i hrange
        obtain ⟨hpos, hle⟩ := hrange
        rw [Nat.pow_eq] at hle
        cases h
        rw [Number.Canonical, Int64.toInt_ofInt, Int.bmod_eq_of_le (by simp; omega) (by simp; omega)]
        omega
      · cases h
        exact Decimal.isFinite_neg (Decimal.within_toFloat _).isFinite
  · obtain ⟨x, hx, rfl⟩ := Option.map_eq_some_iff.1 h
    have hfinite : x.isFinite = true := Numeral.isFinite_of_scale? (Decimal.within_toFloat _) hx
    cases negative
    · exact hfinite
    · exact Decimal.isFinite_neg hfinite

theorem canonical_of_readNumber {input rest : List Symbol} {n : Number} (h : readNumber input = .ok (n, rest)) :
    n.Canonical := by
  unfold readNumber at h
  obtain ⟨⟨numeral, left⟩, -, h⟩ := exists_of_bind_eq_ok h
  simp only at h
  split at h
  · rename_i m hm
    cases h
    exact canonical_of_toNumber? hm
  · cases h

/-- The doubles nearest to the numbers that are read are finite. -/
theorem Number.Canonical.isFinite_toFloat {n : Number} (h : n.Canonical) : n.toFloat.isFinite = true := by
  cases n with
  | natural n => exact (Decimal.within_toFloat n).isFinite
  | negative n =>
    have hsign : n.toInt < 0 := h
    rw [toFloat, if_pos hsign]
    exact Decimal.isFinite_neg (Decimal.within_toFloat _).isFinite
  | real x => exact h

end Unnest.Json
