import Mathlib.Tactic.SplitIfs
import Unnest.Json.Literal
import Unnest.Json.Printer

/-!
# Strings that were written are read back

`readString_quote`: reading what stands after the opening quote of a written string gives the string. Each
character is read back from its own text (`stringBody_escapeChar`), whether it stands for itself, is a
short escape or is a control character written as four hexadecimal digits.
-/

namespace Unnest.Json
open Text

theorem hexDigit?_hexChar : ∀ n < 16, hexDigit? (.char (hexChar n)) = some n := by decide

theorem hexUnit_control {n : Nat} (hn : n < 0x20) (rest : List Symbol) :
    hexUnit (.char '0' :: .char '0' :: .char (hexChar (n / 16)) :: .char (hexChar (n % 16)) :: rest)
      = .ok n := by
  have hhigh := hexDigit?_hexChar (n / 16) (by omega)
  have hlow := hexDigit?_hexChar (n % 16) (by omega)
  have hzero : hexDigit? (.char '0') = some 0 := rfl
  have hsize : ¬ Symbol.totalSize [.char '0', .char '0', .char (hexChar (n / 16)),
      .char (hexChar (n % 16))] < 4 := by
    have := Symbol.size_pos (.char (hexChar (n / 16)))
    have := Symbol.size_pos (.char (hexChar (n % 16)))
    have : Symbol.size (.char '0') = 1 := rfl
    simp only [Symbol.totalSize_cons, Symbol.totalSize_nil]
    omega
  have hn : n / 16 * 16 + n % 16 = n := by omega
  rw [hexUnit, List.take_succ_cons, List.take_succ_cons, List.take_succ_cons, List.take_succ_cons,
    List.take_zero, if_neg hsize]
  simp [hzero, hhigh, hlow, hn]

theorem unicodeEscape_control {c : Char} (hc : c.toNat < 0x20) (rest : List Symbol) :
    unicodeEscape (.char '0' :: .char '0' :: .char (hexChar (c.toNat / 16))
      :: .char (hexChar (c.toNat % 16)) :: rest) = .ok (c, 4) := by
  have htrailing : isTrailingSurrogate c.toNat = false := by
    simp only [isTrailingSurrogate, Bool.and_eq_false_iff, decide_eq_false_iff_not]
    omega
  have hleading : isLeadingSurrogate c.toNat = false := by
    simp only [isLeadingSurrogate, Bool.and_eq_false_iff, decide_eq_false_iff_not]
    omega
  rw [unicodeEscape, hexUnit_control hc]
  simp [bind, Except.bind, htrailing, hleading]

theorem stringBody_escapeChar (c : Char) (found : List Char) (rest : List Symbol) :
    stringBody found true 0 ((escapeChar c).map .char ++ rest) = stringBody (c :: found) true 0 rest := by
  unfold escapeChar
  split_ifs with hquote hslash hback hform hline hreturn htab hcontrol
  iterate 7 · subst c; rfl
  · have hescape : escape (.char 'u' :: .char '0' :: .char '0' :: .char (hexChar (c.toNat / 16))
        :: .char (hexChar (c.toNat % 16)) :: rest) = .ok (c, 5) := by
      rw [escape, unicodeEscape_control hcontrol]
      rfl
    simp [stringBody, hescape]
  · simp [stringBody, hquote, hslash, hcontrol]

theorem stringBody_flatMap (cs found : List Char) (rest : List Symbol) :
    stringBody found true 0 ((cs.flatMap escapeChar).map .char ++ .char '"' :: rest)
      = .ok (String.ofList (found.reverse ++ cs), rest) := by
  induction cs generalizing found with
  | nil => simp [stringBody]
  | cons c cs ih =>
    rw [List.flatMap_cons, List.map_append, List.append_assoc, stringBody_escapeChar, ih]
    simp

/-- Every string is read back from its text. -/
theorem readString_quote (s : String) (rest : List Symbol) :
    readString ((s.toList.flatMap escapeChar ++ ['"']).map .char ++ rest) = .ok (s, rest) := by
  have h := stringBody_flatMap s.toList [] rest
  simpa [readString] using h

end Unnest.Json
