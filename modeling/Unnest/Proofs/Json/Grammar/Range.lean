import Unnest.Proofs.Json.Double
import Unnest.Proofs.Json.Grammar.Numerals

/-!
# The range of numbers

A numeral is read as a number, whatever follows it, if it stands for a double (`exists_readNumber_of_inRange`), and
is found out of range otherwise (`inRange_of_readNumber`). The significand and the power that the reader comes to are
those of the text (`takes_numeral`), and whole numbers are in range as they are.
-/

namespace Unnest.Json
open Text Decimal

/-! ### Doubles -/

namespace Numeral

theorem beq_zero_of_atMost {x : Float} {q : ℚ} (h : AtMost x q) : (x == 0.0) = false := by
  obtain ⟨s, m, e, hm, hx, -⟩ := h
  have hbeq : (x == 0.0) = (x.toModel.unpack.compare (0.0 : Float).toModel.unpack == some .eq) := rfl
  have hzero : (0.0 : Float).toModel.unpack = .zero .positive := rfl
  rw [hbeq, hx, hzero]
  cases s <;> rfl

/-- The scaled significand of a numeral is finite. -/
def IsFinite (numeral : Numeral) : Prop :=
  numeral.significand = 0 ∨ (0 ≤ numeral.power → numeral.power ≤ 308 ∧
    (numeral.significand.toUInt64.toFloat * powerOfTen numeral.power.toNat).isInf = false)

variable {numeral : Numeral}

theorem isSome_toFloat?_iff (hs : numeral.significand < limit) : numeral.toFloat?.isSome ↔ numeral.IsFinite := by
  obtain ⟨s, power, whole⟩ := numeral
  have hnat : s.toUInt64.toNat = s := Nat.mod_eq_of_lt hs
  rw [toFloat?, IsFinite]
  dsimp only
  by_cases hneg : power < 0
  · exact iff_of_true (scale?_isSome_of_neg _ _ hneg) (.inr fun h => absurd hneg (Int.not_lt.2 h))
  obtain ⟨k, rfl⟩ := Int.eq_ofNat_of_zero_le (not_lt.1 hneg)
  rw [scale?, Int.natAbs_natCast, Int.toNat_natCast, if_pos (Int.natCast_nonneg k)]
  by_cases hk : k ≤ 308
  · rw [if_pos hk]
    dsimp only
    cases hinf : (s.toUInt64.toFloat * powerOfTen k).isInf with
    | false => exact iff_of_true rfl (.inr fun _ => ⟨by omega, rfl⟩)
    | true =>
      refine iff_of_false Bool.false_ne_true (not_or.2 ⟨?_, fun h => Bool.noConfusion (h (Int.natCast_nonneg k)).2⟩)
      rintro rfl
      exact Bool.noConfusion (hinf.symm.trans (isInf_zero_mul (atMost_powerOfTen hk)))
  · rw [if_neg hk]
    by_cases hzero : s = 0
    · subst hzero
      exact iff_of_true rfl (.inl rfl)
    · rw [beq_zero_of_atMost (atMost_toFloat (by rwa [hnat])), if_neg Bool.false_ne_true, if_pos (by omega)]
      exact iff_of_false Bool.false_ne_true (not_or.2 ⟨hzero, fun h => by have := (h (Int.natCast_nonneg k)).1; omega⟩)

theorem isFinite_of_power_eq_zero (hs : numeral.significand < limit) (hpower : numeral.power = 0) :
    numeral.IsFinite := by
  rw [← isSome_toFloat?_iff hs]
  refine toFloat?_isSome hs ?_
  have hsize : (numeral.significand : ℚ) ≤ 2 ^ 64 := by exact_mod_cast hs.le
  have hsmall : (2 : ℚ) ^ 64 * (1 + 2 ^ (-52 : ℤ)) ^ 3 < 2 ^ (65 : ℤ) := by norm_num
  have hroom : (2 : ℚ) ^ (65 : ℤ) < 2 ^ (1024 : ℤ) := zpow_lt_zpow_right₀ one_lt_two (by decide)
  rw [value, hpower, zpow_zero, mul_one]
  exact (mul_le_mul_of_nonneg_right hsize (by positivity)).trans_lt (hsmall.trans hroom)

theorem isSome_toNumber?_iff (numeral : Numeral) (hs : numeral.significand < limit) (hwhole : numeral.whole = true → numeral.power = 0)
    (negative : Bool) : (numeral.toNumber? negative).isSome ↔ numeral.IsFinite := by
  rw [toNumber?]
  split
  · rename_i h
    refine iff_of_true ?_ (isFinite_of_power_eq_zero hs (hwhole h))
    dsimp only
    repeat' split
    all_goals rfl
  · rw [Option.isSome_map, isSome_toFloat?_iff hs]

end Numeral

/-! ### The parts of a numeral -/

section
variable {sign whole fraction power : List Char}

theorem takeWhile_isDigit_power (hpower : IsPower power) : power.takeWhile Char.isDigit = [] := by
  rcases hpower with rfl | ⟨mark, hmark, sign, -, ds, rfl, -⟩
  · rfl
  · simp only [List.mem_cons, List.not_mem_nil, or_false] at hmark
    rcases hmark with rfl | rfl <;> rfl

theorem point_not_mem_power (hpower : IsPower power) : '.' ∉ power := by
  rcases hpower with rfl | ⟨mark, hmark, sign, hsign, ds, rfl, hds, -⟩
  · exact List.not_mem_nil
  · have hdigits : '.' ∉ ds := fun hmem => ne_of_isDigit (hds _ hmem) rfl rfl
    simp only [List.mem_cons, List.not_mem_nil, or_false] at hmark hsign
    rcases hmark with rfl | rfl <;> rcases hsign with rfl | rfl | rfl <;> simpa using hdigits

theorem wholeOf_eq (hsign : sign ∈ [[], ['-']]) (hwhole : IsWhole whole) (hfraction : IsFraction fraction)
    (hpower : IsPower power) : wholeOf (sign ++ (whole ++ (fraction ++ power))) = whole := by
  obtain ⟨⟨hdigits, hne⟩, -⟩ := hwhole
  have hdrop : (sign ++ (whole ++ (fraction ++ power))).dropWhile (· = '-') = whole ++ (fraction ++ power) := by
    obtain ⟨c, cs, rfl⟩ := List.exists_cons_of_ne_nil hne
    have hminus : (c :: (cs ++ (fraction ++ power))).dropWhile (· = '-') = c :: (cs ++ (fraction ++ power)) :=
      List.dropWhile_cons_of_neg (by simpa using ne_of_isDigit hdigits.head rfl)
    simp only [List.mem_cons, List.not_mem_nil, or_false] at hsign
    rcases hsign with rfl | rfl <;> exact hminus
  have hafter : (fraction ++ power).takeWhile Char.isDigit = [] := by
    rcases hfraction with rfl | ⟨ds, rfl, -⟩
    · exact takeWhile_isDigit_power hpower
    · rfl
  rw [wholeOf, hdrop, List.takeWhile_append_of_pos hdigits, hafter, List.append_nil]

theorem fractionOf_eq (hsign : sign ∈ [[], ['-']]) (hwhole : IsWhole whole) (hfraction : IsFraction fraction)
    (hpower : IsPower power) : fractionOf (sign ++ (whole ++ (fraction ++ power))) = fraction.drop 1 := by
  have hbefore : ∀ c ∈ sign ++ whole, decide (c ≠ '.') = true := by
    intro c hc
    refine decide_eq_true ?_
    rcases List.mem_append.1 hc with hc | hc
    · simp only [List.mem_cons, List.not_mem_nil, or_false] at hsign
      rcases hsign with rfl | rfl
      · cases hc
      · rw [List.mem_singleton.1 hc]
        decide
    · exact ne_of_isDigit (hwhole.1.1 c hc) rfl
  rw [fractionOf, ← List.append_assoc, List.dropWhile_append_of_pos hbefore]
  rcases hfraction with rfl | ⟨ds, rfl, hds, -⟩
  · have hnone : power.dropWhile (· ≠ '.') = [] := by
      rw [List.dropWhile_eq_nil_iff]
      intro c hc
      refine decide_eq_true ?_
      rintro rfl
      exact point_not_mem_power hpower hc
    rw [List.nil_append, hnone]
    rfl
  · have hpoint : ('.' :: ds ++ power).dropWhile (· ≠ '.') = '.' :: (ds ++ power) :=
      List.dropWhile_cons_of_neg (by decide)
    rw [hpoint, List.drop_one, List.tail_cons, List.takeWhile_append_of_pos hds, takeWhile_isDigit_power hpower,
      List.append_nil, List.drop_one, List.tail_cons]

theorem writtenPower_eq (hsign : sign ∈ [[], ['-']]) (hwhole : IsWhole whole) (hfraction : IsFraction fraction) :
    writtenPower (sign ++ (whole ++ (fraction ++ power))) = writtenPower power := by
  have hdigit : ∀ c : Char, c.isDigit = true → (c ≠ 'e' && c ≠ 'E') = true := fun c hc => by
    simp [ne_of_isDigit hc (show 'e'.isDigit = false from rfl),
      ne_of_isDigit hc (show 'E'.isDigit = false from rfl)]
  have hbefore : ∀ c ∈ sign ++ (whole ++ fraction), (c ≠ 'e' && c ≠ 'E') = true := by
    intro c hc
    rcases List.mem_append.1 hc with hc | hc
    · simp only [List.mem_cons, List.not_mem_nil, or_false] at hsign
      rcases hsign with rfl | rfl
      · cases hc
      · rw [List.mem_singleton.1 hc]
        decide
    · rcases List.mem_append.1 hc with hc | hc
      · exact hdigit c (hwhole.1.1 c hc)
      · rcases hfraction with rfl | ⟨ds, rfl, hds, -⟩
        · cases hc
        · rcases List.mem_cons.1 hc with rfl | hc
          · decide
          · exact hdigit c (hds c hc)
  have hassoc : sign ++ (whole ++ (fraction ++ power)) = sign ++ (whole ++ fraction) ++ power := by
    simp only [List.append_assoc]
  rw [hassoc, writtenPower, List.dropWhile_append_of_pos hbefore, ← writtenPower]

end

/-! ### Numbers -/

/-- The number that a sign makes of a numeral. -/
def Numeral.signed (numeral : Numeral) (negative : Bool) (rest : List Symbol) : Except Failure (Number × List Symbol) :=
  match numeral.toNumber? negative with
  | some n => .ok (n, rest)
  | none => .error (.within .numberOutOfRange 0 rest)

theorem exists_readNumber_sign {sign : List Char} (hsign : sign ∈ [[], ['-']]) {text : List Char}
    (htext : ∃ c cs, text = c :: cs ∧ c.isDigit = true) :
    ∃ negative, ∀ rest, readNumber ((sign ++ text).map .char ++ rest) =
      Numeral.read (text.map .char ++ rest) >>= fun read => read.1.signed negative read.2 := by
  obtain ⟨c, cs, rfl, hc⟩ := htext
  simp only [List.mem_cons, List.not_mem_nil, or_false] at hsign
  rcases hsign with rfl | rfl
  · refine ⟨false, fun rest => ?_⟩
    have hminus : c ≠ '-' := ne_of_isDigit hc rfl
    simp only [List.nil_append, List.map_cons, List.cons_append, readNumber, List.cons.injEq, Symbol.char.injEq, hminus,
      false_and, imp_false, not_false_eq_true, implies_true]
    rfl
  · exact ⟨true, fun rest => rfl⟩

section
variable {text : List Char}

/-- The significand and the power that the reader comes to are those of the text. -/
theorem takes_numeral (h : IsNumeral text) : ∃ negative body,
    Takes Numeral.read body (significandOf text) (powerOf text - writtenPower text) (writtenPower text) ∧
      ∀ rest, readNumber (text.map .char ++ rest) =
        Numeral.read (body.map .char ++ rest) >>= fun read => read.1.signed negative read.2 := by
  obtain ⟨sign, hsign, whole, fraction, power, rfl, hwhole, hfraction, hpower⟩ := h
  have hstart : ∃ c cs, whole ++ (fraction ++ power) = c :: cs ∧ c.isDigit = true := by
    obtain ⟨⟨hdigits, hne⟩, -⟩ := hwhole
    obtain ⟨c, cs, rfl⟩ := List.exists_cons_of_ne_nil hne
    exact ⟨c, _, rfl, hdigits.head⟩
  obtain ⟨negative, hstep⟩ := exists_readNumber_sign hsign hstart
  refine ⟨negative, whole ++ (fraction ++ power), ?_, hstep⟩
  rw [powerOf, Int.add_sub_cancel, significandOf, wholeOf_eq hsign hwhole hfraction hpower,
    fractionOf_eq hsign hwhole hfraction hpower, writtenPower_eq hsign hwhole hfraction]
  exact takes_read hwhole hfraction hpower

theorem significandOf_lt (text : List Char) : significandOf text < Numeral.limit :=
  accumulate_lt (accumulate_lt (by decide) _) _

/-- A numeral is a number if it is in range, and out of range for the reader if it is not. -/
theorem readNumber_cases (h : IsNumeral text) :
    (InRange text ∧ ∃ n, ∀ rest, Ends rest → readNumber (text.map .char ++ rest) = .ok (n, rest)) ∨
      ¬ InRange text ∧ ∀ rest, Ends rest → ∃ unread,
        readNumber (text.map .char ++ rest) = .error ⟨.numberOutOfRange, unread⟩ := by
  obtain ⟨negative, body, htakes, hstep⟩ := takes_numeral h
  cases htakes with
  | numeral whole hwhole hlow hhigh hread =>
    have hsigned : ∀ rest, Ends rest → readNumber (text.map .char ++ rest) =
        Numeral.signed ⟨significandOf text, powerOf text, whole⟩ negative rest := fun rest hrest => by
      rw [hstep, hread rest hrest, Int.sub_add_cancel]
      rfl
    have hrange : InRange text ↔ Numeral.IsFinite ⟨significandOf text, powerOf text, whole⟩ := by
      rw [InRange, Numeral.IsFinite, or_iff_right (Int.not_le.2 hlow), and_iff_right hhigh]
    have hsome := Numeral.isSome_toNumber?_iff ⟨significandOf text, powerOf text, whole⟩ (significandOf_lt text)
      (fun hw => Int.sub_add_cancel (powerOf text) _ ▸ hwhole hw) negative
    rw [← hrange] at hsome
    cases hnumber : Numeral.toNumber? negative ⟨significandOf text, powerOf text, whole⟩ with
    | some n =>
      rw [hnumber] at hsome
      refine .inl ⟨hsome.1 rfl, n, fun rest hrest => ?_⟩
      rw [hsigned rest hrest, Numeral.signed, hnumber]
    | none =>
      rw [hnumber] at hsome
      refine .inr ⟨fun hin => Bool.false_ne_true (hsome.2 hin), fun rest hrest => ⟨Symbol.totalSize rest, ?_⟩⟩
      rw [hsigned rest hrest, Numeral.signed, hnumber]
      rfl
  | zero hwritten hread =>
    have hin : InRange text := by
      rcases hwritten with hlow | ⟨hzero, -⟩
      · exact .inr (.inl hlow)
      · exact .inl hzero
    obtain ⟨n, hn⟩ := Option.isSome_iff_exists.1
      ((Numeral.isSome_toNumber?_iff ⟨0, 0, false⟩ (by decide) nofun negative).2 (.inl rfl))
    have hsigned : ∀ rest, Ends rest → readNumber (text.map .char ++ rest) =
        Numeral.signed ⟨0, 0, false⟩ negative rest := fun rest hrest => by
      rw [hstep, hread rest hrest]
      simp only [bind, Except.bind]
    refine .inl ⟨hin, n, fun rest hrest => ?_⟩
    rw [hsigned rest hrest, Numeral.signed, hn]
  | outOfRange hs hwritten hread =>
    refine .inr ⟨?_, fun rest hrest => ?_⟩
    · rintro (hzero | hlow | ⟨hhigh, -⟩)
      · exact hs hzero
      · have hpos : 0 < Numeral.powerLimit := by decide
        omega
      · omega
    · obtain ⟨unread, hread⟩ := hread rest hrest
      refine ⟨unread, ?_⟩
      rw [hstep, hread]
      rfl

theorem exists_readNumber_of_inRange (h : IsNumeral text) (hrange : Limits.reader.inRange text) :
    ∃ n, ∀ rest, Ends rest → readNumber (text.map .char ++ rest) = .ok (n, rest) := by
  rcases readNumber_cases h with ⟨-, hnumber⟩ | ⟨hout, -⟩
  · exact hnumber
  · exact absurd hrange hout

theorem inRange_of_readNumber (h : IsNumeral text) {rest : List Symbol} (hrest : Ends rest)
    {n : Number} {left : List Symbol} (hread : readNumber (text.map .char ++ rest) = .ok (n, left)) :
    Limits.reader.inRange text := by
  rcases readNumber_cases h with ⟨hrange, -⟩ | ⟨-, hout⟩
  · exact hrange
  · obtain ⟨unread, hnumber⟩ := hout rest hrest
    exact nomatch hread.symm.trans hnumber

end

end Unnest.Json
