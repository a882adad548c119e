import Mathlib.Algebra.Order.Field.Power
import Mathlib.Data.Rat.Cast.Order
import Mathlib.Tactic.Linarith
import Mathlib.Tactic.Positivity
import Mathlib.Tactic.Ring
import Unnest.Proofs.Json.Containers

/-!
# Reading written numerals

Digits are read up to the first symbol that is none, and count as long as they fit (`accumulate`). A numeral of
digits, perhaps a fraction and perhaps a power of ten is read to its end (`spells_leading`, `spellsAtMost_point`,
`spellsAtMost_power`), and what is read is at most what was written: digits that do not fit are dropped. Its whole
part must not start with a superfluous zero and must fit (`Leading`).
-/

namespace Unnest.Json
open Text

/-- A text of decimal digits. -/
def Digits (cs : List Char) : Prop := ∀ c ∈ cs, c.isDigit = true

theorem Digits.append {cs ds : List Char} (hc : Digits cs) (hd : Digits ds) : Digits (cs ++ ds) :=
  fun c h => (List.mem_append.1 h).elim (hc c) (hd c)

theorem Digits.head {c : Char} {cs : List Char} (h : Digits (c :: cs)) : c.isDigit = true :=
  h c List.mem_cons_self

theorem Digits.tail {c : Char} {cs : List Char} (h : Digits (c :: cs)) : Digits cs :=
  fun d hd => h d (List.mem_cons_of_mem _ hd)

theorem digits_toDigits (n : Nat) : Digits (Nat.toDigits 10 n) :=
  fun _ hc => Nat.isDigit_of_mem_toDigits (by decide) (by decide) hc

theorem digits_replicate_zero (n : Nat) : Digits (List.replicate n '0') := by
  intro c hc
  rw [(List.mem_replicate.1 hc).2]
  rfl

theorem digit?_of_isDigit {c : Char} (hc : c.isDigit = true) : digit? (.char c) = some (c.toNat - '0'.toNat) :=
  if_pos hc

/-- A rest that does not start with a digit. -/
def NoDigit (rest : List Symbol) : Prop := ∀ s ∈ rest.head?, digit? s = none

theorem noDigit_cons {s : Symbol} {rest : List Symbol} (h : digit? s = none) : NoDigit (s :: rest) := by
  simpa [NoDigit] using h

theorem NoDigit.any_head {rest : List Symbol} (h : NoDigit rest) : rest.head?.any isDigit = false := by
  cases rest with
  | nil => rfl
  | cons s rest => simp [isDigit, h s rfl]

theorem NoDigit.takeWhile (h : NoDigit rest) : rest.takeWhile isDigit = [] := by
  cases rest with
  | nil => rfl
  | cons s rest => exact List.takeWhile_cons_of_neg (by simp [isDigit, h s rfl])

theorem Ends.noDigit {rest : List Symbol} (h : Ends rest) : NoDigit rest := by
  intro s hs
  have := h s hs
  simp only [continuesNumber, isDigit, Bool.or_eq_false_iff] at this
  simpa using this.1

theorem Digits.isDigit_map {ds : List Char} (hd : Digits ds) : ∀ s ∈ ds.map Symbol.char, isDigit s = true := by
  intro s hs
  obtain ⟨c, hc, rfl⟩ := List.mem_map.1 hs
  rw [isDigit, digit?_of_isDigit (hd c hc)]
  rfl

theorem skipDigits_append {ds : List Char} (hd : Digits ds) {rest : List Symbol} (hrest : NoDigit rest) :
    skipDigits (ds.map .char ++ rest) = rest := by
  rw [skipDigits, List.dropWhile_append_of_pos hd.isDigit_map]
  cases rest with
  | nil => rfl
  | cons s rest => exact List.dropWhile_cons_of_neg (by simp [isDigit, hrest s rfl])

theorem mul_pow_le_ofDigitChars (ds : List Char) (n : Nat) :
    n * 10 ^ ds.length ≤ Nat.ofDigitChars 10 ds n := by
  induction ds generalizing n with
  | nil => simp
  | cons c ds ih =>
    rw [Nat.ofDigitChars_cons]
    refine le_trans ?_ (ih _)
    rw [List.length_cons, Nat.pow_succ', ← Nat.mul_assoc, Nat.mul_comm n 10]
    exact Nat.mul_le_mul_right _ (Nat.le_add_right _ _)

theorem le_ofDigitChars (ds : List Char) (n : Nat) : n ≤ Nat.ofDigitChars 10 ds n :=
  (Nat.le_mul_of_pos_right n (Nat.pow_pos (by decide))).trans (mul_pow_le_ofDigitChars ds n)

section
variable {ds : List Char} {rest : List Symbol}

theorem ofDigitChars_lt (hd : Digits ds) (n : Nat) :
    Nat.ofDigitChars 10 ds n < (n + 1) * 10 ^ ds.length := by
  induction ds generalizing n with
  | nil => simp
  | cons c ds ih =>
    have hc : c.toNat - '0'.toNat < 10 := by
      have := Char.isDigit_iff_toNat.1 hd.head
      have hnine : '9'.toNat = '0'.toNat + 9 := rfl
      omega
    rw [Nat.ofDigitChars_cons]
    refine (ih hd.tail _).trans_le ?_
    rw [List.length_cons, Nat.pow_succ', ← Nat.mul_assoc]
    exact Nat.mul_le_mul_right _ (by omega)

theorem powerDigits_append (hd : Digits ds) (hrest : NoDigit rest) (p : Nat)
    (hfit : Nat.ofDigitChars 10 ds p < Numeral.powerLimit) :
    Numeral.powerDigits p (ds.map .char ++ rest) = .ok (Nat.ofDigitChars 10 ds p, rest) := by
  induction ds generalizing p with
  | nil =>
    cases rest with
    | nil => rfl
    | cons symbol rest => simp [Numeral.powerDigits, hrest symbol rfl]
  | cons c ds ih =>
    rw [Nat.ofDigitChars_cons, Nat.mul_comm 10 p] at hfit ⊢
    have hstep := (le_ofDigitChars ds _).trans_lt hfit
    rw [List.map_cons, List.cons_append, Numeral.powerDigits, digit?_of_isDigit hd.head]
    simp only [if_pos hstep]
    exact ih hd.tail _ hfit

end

/-! ### Digits that count -/

/-- The significand that digits make of one before them, and how many of them it takes up: they count as long as it
stays below 2⁶⁴. -/
def accumulate (significand : Nat) : List Char → Nat × Nat
  | [] => (significand, 0)
  | c :: ds =>
    let longer := significand * 10 + (c.toNat - '0'.toNat)
    if longer < Numeral.limit then ((accumulate longer ds).1, (accumulate longer ds).2 + 1) else (significand, 0)

section
variable {ds : List Char} {rest : List Symbol}

theorem accumulate_lt {s : Nat} (hs : s < Numeral.limit) (ds : List Char) : (accumulate s ds).1 < Numeral.limit := by
  fun_induction accumulate s ds with
  | case1 => exact hs
  | case2 s c ds longer hfit ih => exact ih hfit
  | case3 => exact hs

theorem accumulate_of_fit {s : Nat} (hfit : Nat.ofDigitChars 10 ds s < Numeral.limit) :
    accumulate s ds = (Nat.ofDigitChars 10 ds s, ds.length) := by
  fun_induction accumulate s ds with
  | case1 => rfl
  | case2 s c ds longer hlonger ih =>
    rw [Nat.ofDigitChars_cons, Nat.mul_comm 10 s] at hfit ⊢
    rw [ih hfit, List.length_cons]
  | case3 s c ds longer hlonger =>
    rw [Nat.ofDigitChars_cons, Nat.mul_comm 10 s] at hfit
    exact absurd ((le_ofDigitChars ds _).trans_lt hfit) hlonger

theorem accumulate_le (s : Nat) (ds : List Char) : (accumulate s ds).2 ≤ ds.length := by
  fun_induction accumulate s ds with
  | case1 => exact le_rfl
  | case2 s c ds longer hfit ih => exact Nat.succ_le_succ ih
  | case3 => exact Nat.zero_le _

/-- Leaving digits out makes the number smaller. -/
theorem accumulate_mul_le (s : Nat) (ds : List Char) :
    (accumulate s ds).1 * 10 ^ (ds.length - (accumulate s ds).2) ≤ Nat.ofDigitChars 10 ds s := by
  fun_induction accumulate s ds with
  | case1 => simp
  | case2 s c ds longer hfit ih =>
    rwa [List.length_cons, Nat.add_sub_add_right, Nat.ofDigitChars_cons, Nat.mul_comm 10 s]
  | case3 s c ds longer hfit => exact mul_pow_le_ofDigitChars _ s

theorem wholeDigits_eq (hds : Digits ds) (hrest : NoDigit rest) (s : Nat) :
    Numeral.wholeDigits s (ds.map .char ++ rest) =
      ((accumulate s ds).1, ds.length - (accumulate s ds).2, rest) := by
  fun_induction accumulate s ds with
  | case1 s =>
    cases rest with
    | nil => rfl
    | cons symbol rest => simp [Numeral.wholeDigits, hrest symbol rfl]
  | case2 s c ds longer hfit ih =>
    rw [List.map_cons, List.cons_append, Numeral.wholeDigits, digit?_of_isDigit hds.head]
    dsimp only
    rw [ih hds.tail, List.length_cons, Nat.add_sub_add_right]
    exact if_pos hfit
  -- all digits that are left do not fit
  | case3 s c ds longer hfit =>
    have htake : (((c :: ds).map Symbol.char ++ rest).takeWhile isDigit).length = (c :: ds).length := by
      rw [List.takeWhile_append_of_pos hds.isDigit_map, hrest.takeWhile, List.append_nil, List.length_map]
    have hskip := skipDigits_append hds hrest
    rw [List.map_cons, List.cons_append] at htake hskip ⊢
    rw [Numeral.wholeDigits, digit?_of_isDigit hds.head]
    simp only [htake, hskip, Nat.sub_zero]
    exact if_neg hfit

theorem fractionDigits_eq (hds : Digits ds) (hrest : NoDigit rest) (s used : Nat) :
    Numeral.fractionDigits s used (ds.map .char ++ rest) =
      ((accumulate s ds).1, used + (accumulate s ds).2, rest) := by
  fun_induction accumulate s ds generalizing used with
  | case1 s =>
    cases rest with
    | nil => rfl
    | cons symbol rest => simp [Numeral.fractionDigits, hrest symbol rfl]
  | case2 s c ds longer hfit ih =>
    rw [List.map_cons, List.cons_append, Numeral.fractionDigits, digit?_of_isDigit hds.head]
    dsimp only
    rw [ih hds.tail, Nat.add_assoc, Nat.add_comm 1]
    exact if_pos hfit
  | case3 s c ds longer hfit =>
    have hskip := skipDigits_append hds hrest
    rw [List.map_cons, List.cons_append] at hskip ⊢
    rw [Numeral.fractionDigits, digit?_of_isDigit hds.head]
    simp only [hskip, Nat.add_zero]
    exact if_neg hfit

end

/-! ### Whole numerals -/

/-- The number that a numeral stands for. -/
def Numeral.value (numeral : Numeral) : ℚ := numeral.significand * 10 ^ numeral.power

/-- A text is read as a numeral, whatever follows it that does not continue a number. -/
def Spells (text : List Char) (numeral : Numeral) : Prop :=
  ∀ rest, Ends rest → Numeral.read (text.map .char ++ rest) = .ok (numeral, rest)

/-- The digits before the point of a numeral: no zero in front of other digits, and few enough to fit. -/
structure Leading (ws : List Char) : Prop where
  digits : Digits ws
  nonempty : ws ≠ []
  lead : ws.head? = some '0' → ws.length = 1
  fits : Nat.ofDigitChars 10 ws 0 < Numeral.limit

theorem read_digits {ws : List Char} (hd : Digits ws) (hne : ws ≠ []) (hlead : ws.head? = some '0' → ws.length = 1)
    {rest : List Symbol} (hrest : NoDigit rest) : Numeral.read (ws.map .char ++ rest) =
      Numeral.afterWhole (accumulate 0 ws).1 (ws.length - (accumulate 0 ws).2) rest := by
  obtain ⟨c, cs, rfl⟩ := List.exists_cons_of_ne_nil hne
  rw [List.map_cons, List.cons_append, Numeral.read, digit?_of_isDigit hd.head]
  by_cases hc : c = '0'
  · subst hc
    obtain rfl : cs = [] := by simpa using hlead rfl
    simp only [List.map_nil, List.nil_append, hrest.any_head, Bool.false_eq_true, if_false]
    rfl
  · have hdigit := Char.isDigit_iff_toNat.1 hd.head
    have hpos : c.toNat - '0'.toNat ≠ 0 := by
      have : c.toNat ≠ '0'.toNat := fun h => hc (Char.toNat_inj.1 h)
      omega
    have hfit : 0 * 10 + (c.toNat - '0'.toNat) < Numeral.limit := by
      have hnine : '9'.toNat = '0'.toNat + 9 := rfl
      rw [Numeral.limit, Nat.pow_eq]
      omega
    rw [accumulate, if_pos hfit, Nat.zero_mul, Nat.zero_add, List.length_cons, Nat.add_sub_add_right]
    obtain ⟨d, hd'⟩ := Nat.exists_eq_succ_of_ne_zero hpos
    rw [hd']
    simp only
    rw [wholeDigits_eq hd.tail hrest]

theorem read_leading {ws : List Char} (hws : Leading ws) {rest : List Symbol} (hrest : NoDigit rest) :
    Numeral.read (ws.map .char ++ rest) = Numeral.afterWhole (Nat.ofDigitChars 10 ws 0) 0 rest := by
  rw [read_digits hws.digits hws.nonempty hws.lead hrest, accumulate_of_fit hws.fits, Nat.sub_self]

theorem spells_leading {ws : List Char} (hws : Leading ws) :
    Spells ws ⟨Nat.ofDigitChars 10 ws 0, 0, true⟩ := by
  intro rest hrest
  rw [read_leading hws hrest.noDigit]
  unfold Numeral.afterWhole
  split
  · cases hrest _ rfl
  · cases hrest _ rfl
  · cases hrest _ rfl
  · rfl

/-! ### Fractions and powers -/

/-- A text is read as a numeral that fits, is no whole number and is at most `q`. -/
def SpellsAtMost (text : List Char) (q : ℚ) : Prop :=
  ∃ numeral, Spells text numeral ∧ numeral.whole = false ∧ numeral.significand < Numeral.limit ∧
    numeral.value ≤ q

theorem afterWhole_point {fs : List Char} (hd : Digits fs) (hne : fs ≠ []) (s dropped : Nat) {rest : List Symbol}
    (hrest : NoDigit rest) : Numeral.afterWhole s dropped (('.' :: fs).map .char ++ rest) =
      Numeral.power? (accumulate s fs).1 (dropped - (accumulate s fs).2) rest := by
  have hfirst : ((fs.map Symbol.char ++ rest).head?).any isDigit = true := by
    obtain ⟨c, cs, rfl⟩ := List.exists_cons_of_ne_nil hne
    simp [isDigit, digit?_of_isDigit hd.head]
  rw [List.map_cons, List.cons_append, Numeral.afterWhole, hfirst]
  simp only [Bool.not_true, Bool.false_eq_true, if_false]
  rw [fractionDigits_eq hd hrest s 0, Nat.zero_add]

theorem accumulate_fraction_le (s : Nat) (fs : List Char) :
    ((accumulate s fs).1 : ℚ) * 10 ^ (-((accumulate s fs).2 : ℤ)) ≤
      Nat.ofDigitChars 10 fs s * 10 ^ (-(fs.length : ℤ)) := by
  have hle : ((accumulate s fs).1 : ℚ) * 10 ^ (fs.length - (accumulate s fs).2) ≤ Nat.ofDigitChars 10 fs s := by
    exact_mod_cast accumulate_mul_le s fs
  have hsplit : (10 : ℚ) ^ (-((accumulate s fs).2 : ℤ)) =
      10 ^ (fs.length - (accumulate s fs).2) * 10 ^ (-(fs.length : ℤ)) := by
    rw [← zpow_natCast, ← zpow_add₀ (by norm_num), Nat.cast_sub (accumulate_le s fs)]
    congr 1
    omega
  rw [hsplit, ← mul_assoc]
  exact mul_le_mul_of_nonneg_right hle (by positivity)

theorem power?_ends (s : Nat) (p : Int) {rest : List Symbol} (hrest : Ends rest) :
    Numeral.power? s p rest = .ok (⟨s, p, false⟩, rest) := by
  unfold Numeral.power?
  split
  · cases hrest _ rfl
  · cases hrest _ rfl
  · rfl

/-- The text of a power of ten: its mark, its sign and its digits. -/
def powerText (power : Int) : List Char :=
  ['e', if power < 0 then '-' else '+'] ++ Nat.toDigits 10 power.natAbs

theorem afterMark_powerText (s : Nat) (p : Int) {power : Int} (hpower : power.natAbs < Numeral.powerLimit)
    {rest : List Symbol} (hrest : Ends rest) :
    Numeral.afterMark s p ((powerText power).tail.map .char ++ rest) = .ok (⟨s, p + power, false⟩, rest) := by
  obtain ⟨c, cs, hcs⟩ := List.exists_cons_of_ne_nil (Nat.toDigits_ne_nil (n := power.natAbs) (b := 10))
  have hd : Digits (c :: cs) := hcs ▸ digits_toDigits power.natAbs
  have hvalue : Nat.ofDigitChars 10 cs (c.toNat - '0'.toNat) = power.natAbs := by
    have := Nat.ofDigitChars_ten_toDigits (n := power.natAbs)
    rwa [hcs, Nat.ofDigitChars_cons, Nat.mul_zero, Nat.zero_add] at this
  have hread := powerDigits_append hd.tail hrest.noDigit (c.toNat - '0'.toNat) (hvalue ▸ hpower)
  rw [hvalue] at hread
  rw [powerText, hcs]
  by_cases hsign : power < 0
  · simp only [if_pos hsign, List.cons_append, List.nil_append, List.tail_cons, List.map_cons,
      Numeral.afterMark, digit?_of_isDigit hd.head, hread, Bool.false_eq_true, if_false]
    rw [show p - (power.natAbs : Int) = p + power by omega]
  · simp only [if_neg hsign, List.cons_append, List.nil_append, List.tail_cons, List.map_cons,
      Numeral.afterMark, digit?_of_isDigit hd.head, hread, if_true]
    rw [show p + (power.natAbs : Int) = p + power by omega]

theorem noDigit_point (fs : List Char) (rest : List Symbol) :
    NoDigit (('.' :: fs).map .char ++ rest) :=
  noDigit_cons rfl

theorem noDigit_powerText (power : Int) (rest : List Symbol) :
    NoDigit ((powerText power).map .char ++ rest) := by
  rw [powerText]
  exact noDigit_cons rfl

theorem power?_powerText (s : Nat) (p : Int) {power : Int} (hpower : power.natAbs < Numeral.powerLimit)
    {rest : List Symbol} (hrest : Ends rest) :
    Numeral.power? s p ((powerText power).map .char ++ rest) = .ok (⟨s, p + power, false⟩, rest) := by
  rw [← afterMark_powerText s p hpower hrest]
  rfl

theorem afterWhole_powerText (s : Nat) {power : Int} (hpower : power.natAbs < Numeral.powerLimit)
    {rest : List Symbol} (hrest : Ends rest) :
    Numeral.afterWhole s 0 ((powerText power).map .char ++ rest) = .ok (⟨s, power, false⟩, rest) := by
  have h := afterMark_powerText s 0 hpower hrest
  rw [Int.zero_add] at h
  rw [← h]
  rfl

section
variable {ws fs : List Char}

theorem spellsAtMost_point (hws : Leading ws) (hfs : Digits fs) (hne : fs ≠ []) :
    SpellsAtMost (ws ++ '.' :: fs)
      (Nat.ofDigitChars 10 (ws ++ fs) 0 * 10 ^ (-(fs.length : ℤ))) := by
  set s := Nat.ofDigitChars 10 ws 0 with hs
  refine ⟨⟨(accumulate s fs).1, (0 : Nat) - (accumulate s fs).2, false⟩, fun rest hrest => ?_, rfl,
    accumulate_lt hws.fits fs, ?_⟩
  · rw [List.map_append, List.append_assoc, read_leading hws (noDigit_point fs rest),
      afterWhole_point hfs hne _ _ hrest.noDigit, power?_ends _ _ hrest]
  · rw [Nat.ofDigitChars_append, ← hs, Numeral.value, Nat.cast_zero, zero_sub]
    exact accumulate_fraction_le s fs

theorem spellsAtMost_point_power (hws : Leading ws) (hfs : Digits fs) (hne : fs ≠ []) {power : Int}
    (hpower : power.natAbs < Numeral.powerLimit) :
    SpellsAtMost (ws ++ '.' :: fs ++ powerText power)
      (Nat.ofDigitChars 10 (ws ++ fs) 0 * 10 ^ (power - fs.length)) := by
  set s := Nat.ofDigitChars 10 ws 0 with hs
  refine ⟨⟨(accumulate s fs).1, (0 : Nat) - (accumulate s fs).2 + power, false⟩, fun rest hrest => ?_, rfl,
    accumulate_lt hws.fits fs, ?_⟩
  · rw [List.append_assoc, List.map_append, List.append_assoc, List.map_append, List.append_assoc,
      read_leading hws (noDigit_point fs _), afterWhole_point hfs hne _ _ (noDigit_powerText power rest),
      power?_powerText _ _ hpower hrest]
  · rw [Nat.ofDigitChars_append, ← hs, Numeral.value, Nat.cast_zero, zero_sub, zpow_add₀ (by norm_num), ← mul_assoc,
      sub_eq_neg_add, zpow_add₀ (by norm_num), ← mul_assoc]
    exact mul_le_mul_of_nonneg_right (accumulate_fraction_le s fs) (by positivity)

theorem spellsAtMost_power (hws : Leading ws) {power : Int} (hpower : power.natAbs < Numeral.powerLimit) :
    SpellsAtMost (ws ++ powerText power) (Nat.ofDigitChars 10 ws 0 * 10 ^ power) := by
  refine ⟨⟨Nat.ofDigitChars 10 ws 0, power, false⟩, fun rest hrest => ?_, rfl, hws.fits, le_rfl⟩
  rw [List.map_append, List.append_assoc, read_leading hws (noDigit_powerText power rest),
    afterWhole_powerText _ hpower hrest]

end

end Unnest.Json
