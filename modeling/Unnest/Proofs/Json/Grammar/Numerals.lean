import Unnest.Proofs.Json.Grammar

/-!
# Numbers and the grammar of numerals

What is read as a number is a numeral of the grammar (`isNumeral_of_readNumber`). In turn, the reader takes every
numeral to its end, whatever follows that does not continue it, and comes to a significand and a power that follow
from the digits alone (`takes_read`).
-/

namespace Unnest.Json
open Text

/-! ### What is read -/

theorem exists_char_of_isDigit {s : Symbol} (h : isDigit s = true) : ∃ c, s = .char c ∧ c.isDigit = true := by
  cases s with
  | stray byte => cases h
  | char c =>
    refine ⟨c, rfl, ?_⟩
    by_contra hc
    rw [isDigit, digit?, if_neg hc] at h
    cases h

theorem ne_of_isDigit {c d : Char} (hc : c.isDigit = true) (hd : d.isDigit = false) : c ≠ d := by
  rintro rfl
  rw [hc] at hd
  cases hd

theorem digit?_eq_zero_iff {s : Symbol} : digit? s = some 0 ↔ s = .char '0' := by
  refine ⟨fun h => ?_, fun h => h ▸ rfl⟩
  obtain ⟨c, rfl, hc⟩ := exists_char_of_isDigit (s := s) (by rw [isDigit, h]; rfl)
  rw [digit?_of_isDigit hc, Option.some_inj] at h
  have hdigit := Char.isDigit_iff_toNat.1 hc
  rw [Char.toNat_inj.1 (show c.toNat = '0'.toNat by omega)]

/-- An input starts with the digits that are skipped. -/
theorem exists_skipDigits (input : List Symbol) : ∃ ds, Digits ds ∧ input = ds.map .char ++ skipDigits input := by
  induction input with
  | nil => exact ⟨[], nofun, rfl⟩
  | cons s input ih =>
    cases hs : isDigit s with
    | false => exact ⟨[], nofun, (List.dropWhile_cons_of_neg (by simp [hs])).symm⟩
    | true =>
      obtain ⟨c, rfl, hc⟩ := exists_char_of_isDigit hs
      obtain ⟨ds, hds, hinput⟩ := ih
      have hskip : skipDigits (.char c :: input) = skipDigits input := List.dropWhile_cons_of_pos hs
      refine ⟨c :: ds, List.forall_mem_cons.2 ⟨hc, hds⟩, ?_⟩
      rw [hskip, List.map_cons, List.cons_append, ← hinput]

theorem skipDigits_cons {s : Symbol} {d : Nat} (h : digit? s = some d) (input : List Symbol) :
    skipDigits (s :: input) = skipDigits input :=
  List.dropWhile_cons_of_pos (by rw [isDigit, h]; rfl)

theorem skipDigits_of_none {s : Symbol} (h : digit? s = none) (input : List Symbol) :
    skipDigits (s :: input) = s :: input :=
  List.dropWhile_cons_of_neg (by simp [isDigit, h])

theorem wholeDigits_rest (s : Nat) (input : List Symbol) : (Numeral.wholeDigits s input).2.2 = skipDigits input := by
  induction input generalizing s with
  | nil => rfl
  | cons symbol input ih =>
    rw [Numeral.wholeDigits]
    cases hd : digit? symbol with
    | none => exact (skipDigits_of_none hd input).symm
    | some d =>
      dsimp only
      split
      · rw [ih, skipDigits_cons hd]
      · rfl

theorem fractionDigits_rest (s used : Nat) (input : List Symbol) :
    (Numeral.fractionDigits s used input).2.2 = skipDigits input := by
  induction input generalizing s used with
  | nil => rfl
  | cons symbol input ih =>
    rw [Numeral.fractionDigits]
    cases hd : digit? symbol with
    | none => exact (skipDigits_of_none hd input).symm
    | some d =>
      dsimp only
      split
      · rw [ih, skipDigits_cons hd]
      · rfl

theorem powerDigits_rest (p : Nat) (input : List Symbol) :
    match Numeral.powerDigits p input with
    | .ok (_, rest) => rest = skipDigits input
    | .error rest => skipDigits rest = skipDigits input := by
  induction input generalizing p with
  | nil => rfl
  | cons symbol input ih =>
    cases hd : digit? symbol with
    | none => simp [Numeral.powerDigits, hd, skipDigits_of_none]
    | some d =>
      simp only [Numeral.powerDigits, hd, skipDigits_cons hd]
      by_cases hlimit : p * 10 + d < Numeral.powerLimit
      · simp only [if_pos hlimit]
        exact ih _
      · simp only [if_neg hlimit]

/-- A digit and the digits that are skipped after it. -/
theorem exists_digits {s : Symbol} (h : isDigit s = true) (input : List Symbol) :
    ∃ ds, IsDigits ds ∧ s :: input = ds.map .char ++ skipDigits input := by
  obtain ⟨c, rfl, hc⟩ := exists_char_of_isDigit h
  obtain ⟨ds, hds, hinput⟩ := exists_skipDigits input
  refine ⟨c :: ds, ⟨List.forall_mem_cons.2 ⟨hc, hds⟩, List.cons_ne_nil c ds⟩, ?_⟩
  rw [List.map_cons, List.cons_append, ← hinput]

section
variable {s dropped : Nat} {p : Int} {input rest : List Symbol} {numeral : Numeral}

theorem exists_afterMark (h : Numeral.afterMark s p input = .ok (numeral, rest)) :
    ∃ sign ∈ [[], ['+'], ['-']], ∃ ds, IsDigits ds ∧ input = (sign ++ ds).map .char ++ rest := by
  rw [Numeral.afterMark.eq_def] at h
  split at h
  rename_i rising after hsign
  have hafter : ∃ sign ∈ [[], ['+'], ['-']], input = sign.map .char ++ after := by
    split at hsign <;> obtain ⟨-, rfl⟩ := Prod.mk.inj hsign
    · exact ⟨['+'], by simp, rfl⟩
    · exact ⟨['-'], by simp, rfl⟩
    · exact ⟨[], by simp, rfl⟩
  have hdigits : ∃ ds, IsDigits ds ∧ after = ds.map .char ++ rest := by
    split at h
    · cases h
    · rename_i first others
      split at h
      · cases h
      · rename_i d hd
        have hrest := powerDigits_rest d others
        have hskip : rest = skipDigits others := by
          split at h
          · rename_i hpower
            rw [hpower] at hrest
            cases h
            exact hrest
          · rename_i hpower
            rw [hpower] at hrest
            split at h
            · cases h
            · cases h
              exact hrest
        rw [hskip]
        exact exists_digits (by rw [isDigit, hd]; rfl) others
  obtain ⟨sign, hmem, rfl⟩ := hafter
  obtain ⟨ds, hds, rfl⟩ := hdigits
  exact ⟨sign, hmem, ds, hds, by rw [List.map_append, List.append_assoc]⟩

theorem isPower_of_afterMark {mark : Char} (hmark : mark ∈ ['e', 'E'])
    (h : Numeral.afterMark s p input = .ok (numeral, rest)) :
    ∃ power, IsPower power ∧ .char mark :: input = power.map .char ++ rest := by
  obtain ⟨sign, hsign, ds, hds, rfl⟩ := exists_afterMark h
  exact ⟨mark :: (sign ++ ds), .inr ⟨mark, hmark, sign, hsign, ds, rfl, hds⟩, rfl⟩

theorem exists_power? (h : Numeral.power? s p input = .ok (numeral, rest)) :
    ∃ power, IsPower power ∧ input = power.map .char ++ rest := by
  rw [Numeral.power?.eq_def] at h
  split at h
  · exact isPower_of_afterMark (by simp) h
  · exact isPower_of_afterMark (by simp) h
  · cases h
    exact ⟨[], .inl rfl, rfl⟩

theorem exists_afterWhole (h : Numeral.afterWhole s dropped input = .ok (numeral, rest)) :
    ∃ fraction power, IsFraction fraction ∧ IsPower power ∧ input = (fraction ++ power).map .char ++ rest := by
  rw [Numeral.afterWhole.eq_def] at h
  split at h
  · rename_i after
    split at h
    · cases h
    · rename_i hfirst
      obtain ⟨power, hpower, hrest⟩ := exists_power? h
      rw [fractionDigits_rest] at hrest
      obtain ⟨first, others, rfl, hdigit⟩ : ∃ first others, after = first :: others ∧ isDigit first = true := by
        cases after with
        | nil => simp at hfirst
        | cons first others => exact ⟨first, others, rfl, by simpa using hfirst⟩
      obtain ⟨d, hd⟩ := Option.isSome_iff_exists.1 hdigit
      obtain ⟨ds, hds, hdigits⟩ := exists_digits hdigit others
      rw [skipDigits_cons hd] at hrest
      refine ⟨'.' :: ds, power, .inr ⟨ds, rfl, hds⟩, hpower, ?_⟩
      rw [hdigits, hrest]
      simp
  · obtain ⟨power, hpower, hrest⟩ := isPower_of_afterMark List.mem_cons_self h
    exact ⟨[], power, .inl rfl, hpower, hrest⟩
  · obtain ⟨power, hpower, hrest⟩ := isPower_of_afterMark (List.mem_cons_of_mem _ List.mem_cons_self) h
    exact ⟨[], power, .inl rfl, hpower, hrest⟩
  · cases h
    exact ⟨[], [], .inl rfl, .inl rfl, rfl⟩

theorem exists_read (h : Numeral.read input = .ok (numeral, rest)) :
    ∃ whole fraction power, IsWhole whole ∧ IsFraction fraction ∧ IsPower power ∧
      input = (whole ++ (fraction ++ power)).map .char ++ rest := by
  rw [Numeral.read.eq_def] at h
  split at h
  · cases h
  · rename_i first others
    split at h
    · cases h
    · rename_i hzero
      split at h
      · cases h
      · obtain ⟨fraction, power, hfraction, hpower, rfl⟩ := exists_afterWhole h
        obtain rfl := digit?_eq_zero_iff.1 hzero
        exact ⟨['0'], fraction, power, ⟨⟨by simp [Digits], by simp⟩, fun _ => rfl⟩, hfraction, hpower, rfl⟩
    · rename_i d hne hd
      obtain ⟨fraction, power, hfraction, hpower, hrest⟩ := exists_afterWhole h
      rw [wholeDigits_rest] at hrest
      obtain ⟨ds, hds, hdigits⟩ := exists_digits (by rw [isDigit, hd]; rfl) others
      refine ⟨ds, fraction, power, ⟨hds, fun hlead => ?_⟩, hfraction, hpower, ?_⟩
      · obtain ⟨tail, rfl⟩ := List.head?_eq_some_iff.1 hlead
        obtain ⟨rfl, -⟩ := List.cons.inj hdigits
        exact absurd (Option.some_inj.1 (hd.symm.trans (digit?_eq_zero_iff.2 rfl))) hne
      · rw [hdigits, hrest]
        simp

end

theorem isNumeral_of_readNumber {input rest : List Symbol} {n : Number} (h : readNumber input = .ok (n, rest)) :
    ∃ text, IsNumeral text ∧ input = text.map .char ++ rest := by
  rw [readNumber.eq_def] at h
  split at h
  rename_i negative after hsign
  have hafter : ∃ sign ∈ [[], ['-']], input = sign.map .char ++ after := by
    split at hsign <;> obtain ⟨-, rfl⟩ := Prod.mk.inj hsign
    · exact ⟨['-'], by simp, rfl⟩
    · exact ⟨[], by simp, rfl⟩
  obtain ⟨⟨numeral, rest'⟩, hread, h⟩ := exists_of_bind_eq_ok h
  obtain rfl : rest' = rest := by
    dsimp only at h
    split at h
    · cases h
      rfl
    · cases h
  obtain ⟨sign, hmem, rfl⟩ := hafter
  obtain ⟨whole, fraction, power, hwhole, hfraction, hpower, rfl⟩ := exists_read hread
  refine ⟨sign ++ (whole ++ (fraction ++ power)), ⟨sign, hmem, whole, fraction, power, rfl, hwhole, hfraction, hpower⟩, ?_⟩
  simp

/-! ### What can be read -/

section
variable {ds : List Char} {rest : List Symbol}

/-- A power that exceeds the limit is given up at one of its digits. -/
theorem exists_powerDigits_error (hds : Digits ds) {p : Nat} (hp : p < Numeral.powerLimit)
    (hlimit : Numeral.powerLimit ≤ Nat.ofDigitChars 10 ds p) :
    ∃ left, Digits left ∧ ∀ rest, Numeral.powerDigits p (ds.map .char ++ rest) = .error (left.map .char ++ rest) := by
  induction ds generalizing p with
  | nil => exact absurd hlimit (Nat.not_le.2 hp)
  | cons c ds ih =>
    have hstep : ∀ rest, Numeral.powerDigits p ((c :: ds).map .char ++ rest) =
        if p * 10 + (c.toNat - '0'.toNat) < Numeral.powerLimit then
          Numeral.powerDigits (p * 10 + (c.toNat - '0'.toNat)) (ds.map .char ++ rest)
        else .error (ds.map .char ++ rest) := by
      intro rest
      rw [List.map_cons, List.cons_append, Numeral.powerDigits, digit?_of_isDigit hds.head]
    by_cases hfit : p * 10 + (c.toNat - '0'.toNat) < Numeral.powerLimit
    · rw [Nat.ofDigitChars_cons, Nat.mul_comm 10 p] at hlimit
      simp only [hstep, if_pos hfit]
      exact ih hds.tail hfit hlimit
    · simp only [hstep, if_neg hfit]
      exact ⟨ds, hds.tail, fun _ => rfl⟩

end

/-- What a reader makes of a numeral, or of a part of it, whatever follows: a significand and a power, to which a
written one is added; zero, whatever the power; or it is out of range. -/
inductive Takes (reader : Reader Numeral) (text : List Char) (s : Nat) (p written : Int) : Prop where
  | numeral (whole : Bool) (hwhole : whole = true → p + written = 0) (hlow : -Numeral.powerLimit < written)
      (hhigh : written < Numeral.powerLimit)
      (h : ∀ rest, Ends rest → reader (text.map .char ++ rest) = .ok (⟨s, p + written, whole⟩, rest))
  | zero (hwritten : written ≤ -Numeral.powerLimit ∨ s = 0 ∧ Numeral.powerLimit ≤ written)
      (h : ∀ rest, Ends rest → reader (text.map .char ++ rest) = .ok (⟨0, 0, false⟩, rest))
  | outOfRange (hs : s ≠ 0) (hwritten : Numeral.powerLimit ≤ written)
      (h : ∀ rest, Ends rest → ∃ unread, reader (text.map .char ++ rest) = .error ⟨.numberOutOfRange, unread⟩)

theorem Takes.of_eq {reader reader' : Reader Numeral} {text text' : List Char} {s : Nat} {p written : Int}
    (h : Takes reader text s p written)
    (heq : ∀ rest, Ends rest → reader' (text'.map .char ++ rest) = reader (text.map .char ++ rest)) :
    Takes reader' text' s p written := by
  cases h with
  | numeral whole hwhole hlow hhigh h =>
    exact .numeral whole hwhole hlow hhigh fun rest hrest => (heq rest hrest).trans (h rest hrest)
  | zero hwritten h => exact .zero hwritten fun rest hrest => (heq rest hrest).trans (h rest hrest)
  | outOfRange hs hwritten h => exact .outOfRange hs hwritten fun rest hrest => heq rest hrest ▸ h rest hrest

/-! ### Written powers -/

/-- What the digits of a written power make of a significand and the power before. -/
def Numeral.raised (significand : Nat) (power : Int) (rising : Bool) :
    Except (List Symbol) (Nat × List Symbol) → Except Failure (Numeral × List Symbol)
  | .ok (written, rest) => .ok (⟨significand, if rising then power + written else power - written, false⟩, rest)
  | .error rest =>
    if significand ≠ 0 && rising then .error (.within .numberOutOfRange 0 rest)
    else .ok (⟨0, 0, false⟩, skipDigits rest)

section
variable {sign ds : List Char}

/-- The sign of a written power says whether the power rises. -/
theorem afterMark_sign (hsign : sign ∈ [[], ['+'], ['-']]) (s : Nat) (p : Int) {c : Char} (hc : c.isDigit = true)
    (cs : List Char) (rest : List Symbol) : Numeral.afterMark s p ((sign ++ c :: cs).map .char ++ rest) =
      Numeral.raised s p (sign ≠ ['-']) (Numeral.powerDigits (c.toNat - '0'.toNat) (cs.map .char ++ rest)) := by
  have hplus : c ≠ '+' := ne_of_isDigit hc rfl
  have hminus : c ≠ '-' := ne_of_isDigit hc rfl
  simp only [List.mem_cons, List.not_mem_nil, or_false] at hsign
  rcases hsign with rfl | rfl | rfl
  · simp only [List.nil_append, List.map_cons, List.cons_append, Numeral.afterMark, List.cons.injEq,
      Symbol.char.injEq, hplus, hminus, false_and, imp_false, not_false_eq_true, implies_true,
      digit?_of_isDigit hc]
    rfl
  · simp only [List.map_cons, List.cons_append, List.nil_append, Numeral.afterMark, digit?_of_isDigit hc]
    rfl
  · simp only [List.map_cons, List.cons_append, List.nil_append, Numeral.afterMark, digit?_of_isDigit hc]
    rfl

theorem writtenPower_mark {mark : Char} (hmark : mark ∈ ['e', 'E']) (hsign : sign ∈ [[], ['+'], ['-']])
    (hds : IsDigits ds) : writtenPower (mark :: (sign ++ ds)) =
      if sign = ['-'] then -(Nat.ofDigitChars 10 ds 0 : Int) else Nat.ofDigitChars 10 ds 0 := by
  obtain ⟨hdigits, hne⟩ := hds
  obtain ⟨c, cs, rfl⟩ := List.exists_cons_of_ne_nil hne
  have hplus : c ≠ '+' := ne_of_isDigit hdigits.head rfl
  have hminus : c ≠ '-' := ne_of_isDigit hdigits.head rfl
  have hdrop : (mark :: (sign ++ c :: cs)).dropWhile (fun c => c ≠ 'e' && c ≠ 'E') = mark :: (sign ++ c :: cs) := by
    refine List.dropWhile_cons_of_neg ?_
    simp only [List.mem_cons, List.not_mem_nil, or_false] at hmark
    rcases hmark with rfl | rfl <;> decide
  rw [writtenPower, hdrop]
  simp only [List.mem_cons, List.not_mem_nil, or_false] at hsign
  rcases hsign with rfl | rfl | rfl
  · simp [hplus, hminus]
  · simp
  · simp

theorem takes_afterMark {mark : Char} (hmark : mark ∈ ['e', 'E']) (hsign : sign ∈ [[], ['+'], ['-']])
    (hds : IsDigits ds) (s : Nat) (p : Int) :
    Takes (Numeral.afterMark s p) (sign ++ ds) s p (writtenPower (mark :: (sign ++ ds))) := by
  rw [writtenPower_mark hmark hsign hds]
  obtain ⟨hdigits, hne⟩ := hds
  obtain ⟨c, cs, rfl⟩ := List.exists_cons_of_ne_nil hne
  have hread := fun rest => afterMark_sign hsign s p hdigits.head cs rest
  have hvalue : Nat.ofDigitChars 10 (c :: cs) 0 = Nat.ofDigitChars 10 cs (c.toNat - '0'.toNat) := by
    rw [Nat.ofDigitChars_cons, Nat.mul_zero, Nat.zero_add]
  have hfirst : c.toNat - '0'.toNat < Numeral.powerLimit := by
    have hc := Char.isDigit_iff_toNat.1 hdigits.head
    have hnine : '9'.toNat = '0'.toNat + 9 := rfl
    rw [Numeral.powerLimit, Nat.pow_eq]
    omega
  rw [hvalue]
  by_cases hfit : Nat.ofDigitChars 10 cs (c.toNat - '0'.toNat) < Numeral.powerLimit
  · have hwritten : ∀ rest, Ends rest → _ := fun rest hrest =>
      (hread rest).trans (congrArg _ (powerDigits_append hdigits.tail hrest.noDigit _ hfit))
    by_cases hminus : sign = ['-']
    · refine .numeral false nofun (by rw [if_pos hminus]; omega) (by rw [if_pos hminus]; omega) fun rest hrest => ?_
      rw [hwritten rest hrest, Numeral.raised, if_neg (by simp [hminus]), if_pos hminus, Int.sub_eq_add_neg]
    · refine .numeral false nofun (by rw [if_neg hminus]; omega) (by rw [if_neg hminus]; omega) fun rest hrest => ?_
      rw [hwritten rest hrest, Numeral.raised, if_pos (by simp [hminus]), if_neg hminus]
  · obtain ⟨left, hleft, hlong⟩ := exists_powerDigits_error hdigits.tail hfirst (Nat.not_lt.1 hfit)
    have hwritten : ∀ rest, Numeral.afterMark s p ((sign ++ c :: cs).map .char ++ rest) =
        Numeral.raised s p (sign ≠ ['-']) (.error (left.map .char ++ rest)) := fun rest => by
      rw [hread rest, hlong]
    by_cases hrange : s ≠ 0 ∧ sign ≠ ['-']
    · refine .outOfRange hrange.1 (by rw [if_neg hrange.2]; omega) fun rest hrest =>
        ⟨Symbol.totalSize (left.map .char ++ rest), ?_⟩
      rw [hwritten rest]
      exact if_pos (by simpa using hrange)
    · refine .zero ?_ fun rest hrest => ?_
      · by_cases hminus : sign = ['-']
        · rw [if_pos hminus]
          omega
        · rw [if_neg hminus]
          exact .inr ⟨of_not_not fun hs => hrange ⟨hs, hminus⟩, by omega⟩
      · rw [hwritten rest]
        refine (if_neg (by simpa using hrange)).trans ?_
        rw [skipDigits_append hleft hrest.noDigit]

end

/-! ### Numerals -/

section
variable {whole fraction power : List Char}

theorem takes_power? (hpower : IsPower power) (s : Nat) (p : Int) :
    Takes (Numeral.power? s p) power s p (writtenPower power) := by
  rcases hpower with rfl | ⟨mark, hmark, sign, hsign, ds, rfl, hds⟩
  · refine .numeral false nofun (by decide) (by decide) fun rest hrest => ?_
    rw [show writtenPower [] = 0 from rfl, Int.add_zero]
    exact power?_ends s p hrest
  · have h := takes_afterMark hmark hsign hds s p
    simp only [List.mem_cons, List.not_mem_nil, or_false] at hmark
    rcases hmark with rfl | rfl <;> exact h.of_eq fun rest hrest => rfl

theorem noDigit_power (hpower : IsPower power) {rest : List Symbol} (hrest : Ends rest) :
    NoDigit (power.map .char ++ rest) := by
  rcases hpower with rfl | ⟨mark, hmark, sign, -, ds, rfl, -⟩
  · exact hrest.noDigit
  · simp only [List.mem_cons, List.not_mem_nil, or_false] at hmark
    rcases hmark with rfl | rfl <;> exact noDigit_cons rfl

theorem noDigit_fraction (hfraction : IsFraction fraction) (hpower : IsPower power) {rest : List Symbol}
    (hrest : Ends rest) : NoDigit ((fraction ++ power).map .char ++ rest) := by
  rcases hfraction with rfl | ⟨ds, rfl, -⟩
  · exact noDigit_power hpower hrest
  · exact noDigit_cons rfl

theorem takes_afterWhole (hfraction : IsFraction fraction) (hpower : IsPower power) (s dropped : Nat) :
    Takes (Numeral.afterWhole s dropped) (fraction ++ power) (accumulate s (fraction.drop 1)).1
      (dropped - (accumulate s (fraction.drop 1)).2) (writtenPower power) := by
  rcases hfraction with rfl | ⟨ds, rfl, hds, hne⟩
  · have hnone : ((dropped : Int) - (accumulate s (List.drop 1 [])).2) = dropped := Int.sub_zero _
    rw [hnone]
    rcases hpower with rfl | ⟨mark, hmark, sign, hsign, ds, rfl, hds⟩
    · refine .numeral (dropped = 0) (fun h => ?_) (by decide) (by decide) fun rest hrest => ?_
      · rw [of_decide_eq_true h]
        rfl
      · rw [show writtenPower [] = 0 from rfl, Int.add_zero]
        show Numeral.afterWhole s dropped rest = _
        unfold Numeral.afterWhole
        split
        iterate 3 · cases hrest _ rfl
        · rfl
    · have h := takes_afterMark hmark hsign hds s dropped
      simp only [List.mem_cons, List.not_mem_nil, or_false] at hmark
      rcases hmark with rfl | rfl <;> exact h.of_eq fun rest hrest => rfl
  · refine (takes_power? hpower _ _).of_eq fun rest hrest => ?_
    rw [List.map_append, List.append_assoc, afterWhole_point hds hne s dropped (noDigit_power hpower hrest)]
    rfl

theorem takes_read (hwhole : IsWhole whole) (hfraction : IsFraction fraction) (hpower : IsPower power) :
    Takes Numeral.read (whole ++ (fraction ++ power)) (accumulate (accumulate 0 whole).1 (fraction.drop 1)).1
      ((whole.length - (accumulate 0 whole).2 : Nat) - (accumulate (accumulate 0 whole).1 (fraction.drop 1)).2)
      (writtenPower power) := by
  obtain ⟨⟨hdigits, hne⟩, hlead⟩ := hwhole
  refine (takes_afterWhole hfraction hpower _ _).of_eq fun rest hrest => ?_
  rw [List.map_append, List.append_assoc,
    read_digits hdigits hne (fun h => congrArg _ (hlead h)) (noDigit_fraction hfraction hpower hrest)]

end

end Unnest.Json
