import Mathlib.Tactic.SplitIfs
import Unnest.Proofs.Json.Grammar

/-!
# Strings and the grammar of their bodies

What stands between the quotes of a string that is read is a body of the grammar in which surrogates come in pairs
(`isPaired_of_readString`), and every such body is read (`exists_readString`).
-/

namespace Unnest.Json
open Text

/-! ### Escaped units -/

theorem size_of_hexDigit? {s : Symbol} {d : Nat} (h : hexDigit? s = some d) : ∃ c, s = .char c ∧ s.size = 1 := by
  cases s with
  | stray byte => cases h
  | char c =>
    refine ⟨c, rfl, Char.utf8Size_eq_one_iff.2 ?_⟩
    have hlow : c.toNat ≤ 127 := by
      rw [hexDigit?] at h
      split_ifs at h with hdigit ha hA
      · have hc := Char.isDigit_iff_toNat.1 hdigit
        have hnine : '9'.toNat = 57 := rfl
        omega
      · exact Nat.le_trans (Char.le_def.1 ha.2) (by decide)
      · exact Nat.le_trans (Char.le_def.1 hA.2) (by decide)
    exact hlow

theorem exists_of_mapM_hexDigit? {symbols : List Symbol} {digits : List Nat}
    (h : symbols.mapM hexDigit? = some digits) :
    ∃ text : List Char, symbols = text.map .char ∧ text.mapM (fun c => hexDigit? (.char c)) = some digits ∧
      Symbol.totalSize symbols = text.length := by
  induction symbols generalizing digits with
  | nil => exact ⟨[], rfl, h, rfl⟩
  | cons s symbols ih =>
    rw [List.mapM_cons] at h
    obtain ⟨d, hd, htail⟩ := Option.bind_eq_some_iff.1 h
    obtain ⟨ds, hds, hcons⟩ := Option.bind_eq_some_iff.1 htail
    obtain ⟨c, rfl, hsize⟩ := size_of_hexDigit? hd
    obtain ⟨text, rfl, htext, hlength⟩ := ih hds
    refine ⟨c :: text, rfl, ?_, ?_⟩
    · rw [List.mapM_cons, hd, htext]
      exact hcons
    · rw [Symbol.totalSize_cons, hsize, hlength, List.length_cons, Nat.add_comm]

theorem isUnit_of_hexUnit {input : List Symbol} {unit : Nat} (h : hexUnit input = .ok unit) :
    ∃ text, IsUnit unit text ∧ input = text.map .char ++ input.drop 4 := by
  rw [hexUnit] at h
  split at h
  · cases h
  · rename_i hsize
    split at h
    · rename_i digits hdigits
      cases h
      obtain ⟨text, htake, htext, hlength⟩ := exists_of_mapM_hexDigit? hdigits
      have hle : text.length ≤ 4 := by
        have := List.length_take_le 4 input
        rwa [htake, List.length_map] at this
      refine ⟨text, ⟨by omega, digits, htext, rfl⟩, ?_⟩
      rw [← htake, List.take_append_drop]
    · cases h

theorem length_le_totalSize (symbols : List Symbol) : symbols.length ≤ Symbol.totalSize symbols := by
  induction symbols with
  | nil => exact Nat.le_refl 0
  | cons s symbols ih =>
    have := s.size_pos
    rw [Symbol.totalSize_cons, List.length_cons]
    omega

theorem hexUnit_of_isUnit {unit : Nat} {text : List Char} (h : IsUnit unit text) (rest : List Symbol) :
    hexUnit (text.map .char ++ rest) = .ok unit := by
  obtain ⟨hlength, digits, hdigits, rfl⟩ := h
  have htake : (text.map Symbol.char ++ rest).take 4 = text.map .char := by
    rw [← hlength, ← List.length_map (f := Symbol.char), List.take_left]
  have hsize : ¬ Symbol.totalSize (text.map Symbol.char) < 4 := by
    have := length_le_totalSize (text.map Symbol.char)
    rw [List.length_map] at this
    omega
  have hmap : text.mapM (hexDigit? ∘ Symbol.char) = some digits := hdigits
  rw [hexUnit, htake, if_neg hsize, List.mapM_map, hmap]

/-! ### Bodies that are read -/

theorem mem_of_shortEscape? {c e : Char} (h : shortEscape? c = some e) :
    c ∈ ['"', '\\', '/', 'b', 'f', 'n', 'r', 't'] := by
  unfold shortEscape? at h
  split at h
  iterate 8 · decide
  · cases h

/-- A body of a string in which no surrogate stands alone. -/
abbrev IsPaired (text : List Char) : Prop := IsBody Limits.reader.alone text

theorem isPaired_of_unicodeEscape {input : List Symbol} {e : Char} {taken : Nat}
    (h : unicodeEscape input = .ok (e, taken)) :
    ∃ text : List Char, input = text.map .char ++ input.drop taken ∧
      ∀ body, IsPaired body → IsPaired ('\\' :: 'u' :: (text ++ body)) := by
  obtain ⟨unit, hunit, h⟩ := exists_of_bind_eq_ok h
  obtain ⟨digits, hdigits, hinput⟩ := isUnit_of_hexUnit hunit
  split at h
  · cases h
  · rename_i htrailing
    split at h
    · rename_i hleading
      cases h
      refine ⟨digits, hinput, fun body hbody => .unit hdigits ⟨?_, ?_⟩ hbody⟩
      · simpa using hleading
      · simpa using htrailing
    · rename_i hleading
      split at h
      · cases h
      · cases h
      · rename_i rest hdrop
        obtain ⟨second, hsecond, h⟩ := exists_of_bind_eq_ok h
        obtain ⟨digits', hdigits', hrest⟩ := isUnit_of_hexUnit hsecond
        split at h
        · rename_i htrailing'
          obtain ⟨-, rfl⟩ := Prod.mk.inj (Except.ok.inj h)
          have hleft : input.drop 10 = rest.drop 4 := by
            have hdrops : input.drop 10 = (input.drop 4).drop 6 := by rw [List.drop_drop]
            rw [hdrops, hdrop]
            rfl
          refine ⟨digits ++ '\\' :: 'u' :: digits', ?_, fun body hbody => ?_⟩
          · rw [hleft, List.map_append, List.append_assoc, List.map_cons, List.map_cons, List.cons_append,
              List.cons_append, ← hrest, ← hdrop, ← hinput]
          · rw [List.append_assoc]
            exact .pair hdigits (by simpa using hleading) hdigits' htrailing' hbody
        · cases h
      · cases h
      · cases h

theorem isPaired_of_escape {input : List Symbol} {e : Char} {taken : Nat} (h : escape input = .ok (e, taken)) :
    ∃ text : List Char, input = text.map .char ++ input.drop taken ∧
      ∀ body, IsPaired body → IsPaired ('\\' :: (text ++ body)) := by
  unfold escape at h
  split at h
  · cases h
  · rename_i rest
    cases hread : unicodeEscape rest with
    | error failure =>
      rw [hread] at h
      cases h
    | ok read =>
      rw [hread] at h
      obtain ⟨-, rfl⟩ := Prod.mk.inj (Except.ok.inj h)
      obtain ⟨text, hrest, hpaired⟩ := isPaired_of_unicodeEscape hread
      refine ⟨'u' :: text, ?_, hpaired⟩
      rw [List.drop_succ_cons, List.map_cons, List.cons_append, ← hrest]
  · rename_i c rest _
    split at h
    · rename_i e' he
      obtain ⟨-, rfl⟩ := Prod.mk.inj (Except.ok.inj h)
      exact ⟨[c], rfl, fun body hbody => .short (mem_of_shortEscape? he) hbody⟩
    · cases h
  · cases h

theorem isPaired_of_stringBody {found : List Char} {sound : Bool} {taken : Nat} {input rest : List Symbol} {s : String}
    (h : stringBody found sound taken input = .ok (s, rest)) :
    sound = true ∧ ∃ text : List Char, IsPaired text ∧ input.drop taken = text.map .char ++ .char '"' :: rest := by
  induction input generalizing found sound taken with
  | nil => cases taken <;> cases h
  | cons symbol input ih =>
    cases taken with
    | succ taken => exact ih h
    | zero =>
      cases symbol with
      | stray byte => exact absurd (ih h).1 Bool.false_ne_true
      | char c =>
        rw [stringBody] at h
        split_ifs at h with hquote hsound hslash hcontrol
        · cases h
          exact ⟨hsound, [], .nil, by rw [hquote]; rfl⟩
        · split at h
          · rename_i e taken hescape
            obtain ⟨htrue, text, htext, hinput⟩ := ih h
            obtain ⟨front, hfront, hstep⟩ := isPaired_of_escape hescape
            refine ⟨htrue, '\\' :: (front ++ text), hstep text htext, ?_⟩
            rw [hslash, List.drop_zero, List.map_cons, List.cons_append, List.map_append, List.append_assoc, ← hinput,
              ← hfront]
          · cases h
        · obtain ⟨htrue, text, htext, hinput⟩ := ih h
          refine ⟨htrue, c :: text, .plain (Nat.le_of_not_lt hcontrol) hquote hslash htext, ?_⟩
          rw [List.drop_zero] at hinput ⊢
          rw [hinput, List.map_cons, List.cons_append]

theorem isPaired_of_readString {input rest : List Symbol} {s : String} (h : readString input = .ok (s, rest)) :
    ∃ text : List Char, IsPaired text ∧ input = text.map .char ++ .char '"' :: rest :=
  (isPaired_of_stringBody h).2

/-! ### Bodies that can be read -/

theorem stringBody_taken {front : List Symbol} {taken : Nat} (hlength : front.length = taken) (found : List Char)
    (sound : Bool) (rest : List Symbol) :
    stringBody found sound taken (front ++ rest) = stringBody found sound 0 rest := by
  induction front generalizing taken with
  | nil =>
    subst hlength
    rfl
  | cons s front ih =>
    subst hlength
    exact ih rfl

/-- What stands after a backslash and is read as one character, whatever follows. -/
def IsEscape (text : List Char) (e : Char) : Prop :=
  ∀ rest, escape (text.map .char ++ rest) = .ok (e, text.length)

theorem stringBody_escape {text : List Char} {e : Char} (h : IsEscape text e) (found : List Char) (rest : List Symbol) :
    stringBody found true 0 (('\\' :: text).map .char ++ rest) = stringBody (e :: found) true 0 rest := by
  rw [List.map_cons, List.cons_append, stringBody, if_neg (by decide), if_pos rfl, h rest]
  exact stringBody_taken (List.length_map _) _ _ _

theorem exists_isEscape_short {c : Char} (hc : c ∈ ['"', '\\', '/', 'b', 'f', 'n', 'r', 't']) :
    ∃ e, IsEscape [c] e := by
  simp only [List.mem_cons, List.not_mem_nil, or_false] at hc
  rcases hc with rfl | rfl | rfl | rfl | rfl | rfl | rfl | rfl <;> exact ⟨_, fun _ => rfl⟩

theorem isEscape_of_unicodeEscape {text : List Char} {e : Char}
    (h : ∀ rest, unicodeEscape (text.map .char ++ rest) = .ok (e, text.length)) : IsEscape ('u' :: text) e := by
  intro rest
  rw [List.map_cons, List.cons_append, escape, h rest]
  rfl

theorem isEscape_unit {unit : Nat} {digits : List Char} (hunit : IsUnit unit digits)
    (halone : Limits.reader.alone unit) : IsEscape ('u' :: digits) (Char.ofNat unit) := by
  refine isEscape_of_unicodeEscape fun rest => ?_
  rw [unicodeEscape, hexUnit_of_isUnit hunit, hunit.1]
  simp [bind, Except.bind, halone.1, halone.2]

theorem isTrailingSurrogate_of_leading {unit : Nat} (h : isLeadingSurrogate unit = true) :
    isTrailingSurrogate unit = false := by
  simp only [isLeadingSurrogate, isTrailingSurrogate, Bool.and_eq_true, Bool.and_eq_false_iff, decide_eq_true_eq,
    decide_eq_false_iff_not] at h ⊢
  omega

theorem isEscape_pair {leading trailing : Nat} {digits digits' : List Char} (hunit : IsUnit leading digits)
    (hleading : isLeadingSurrogate leading = true) (hunit' : IsUnit trailing digits')
    (htrailing : isTrailingSurrogate trailing = true) :
    IsEscape ('u' :: (digits ++ '\\' :: 'u' :: digits')) (pairedChar leading trailing) := by
  refine isEscape_of_unicodeEscape fun rest => ?_
  have hlength : (digits ++ '\\' :: 'u' :: digits').length = 10 := by simp [hunit.1, hunit'.1]
  have hsplit : (digits ++ '\\' :: 'u' :: digits').map Symbol.char ++ rest =
      digits.map .char ++ .char '\\' :: .char 'u' :: (digits'.map .char ++ rest) := by simp
  rw [unicodeEscape, hsplit, hexUnit_of_isUnit hunit, List.drop_left' (by rw [List.length_map, hunit.1]), hlength]
  simp [bind, Except.bind, hleading, isTrailingSurrogate_of_leading hleading, hexUnit_of_isUnit hunit', htrailing]

theorem exists_stringBody {text : List Char} (h : IsPaired text) (found : List Char) (rest : List Symbol) :
    ∃ s, stringBody found true 0 (text.map .char ++ .char '"' :: rest) = .ok (s, rest) := by
  induction h generalizing found with
  | nil => exact ⟨_, rfl⟩
  | @plain c text hcontrol hquote hslash _ ih =>
    obtain ⟨s, hs⟩ := ih (c :: found)
    refine ⟨s, ?_⟩
    rw [List.map_cons, List.cons_append, stringBody, if_neg hquote, if_neg hslash, if_neg (Nat.not_lt.2 hcontrol), hs]
  | @short c text hc _ ih =>
    obtain ⟨e, he⟩ := exists_isEscape_short hc
    have hstep := stringBody_escape he found (text.map .char ++ .char '"' :: rest)
    obtain ⟨s, hs⟩ := ih (e :: found)
    exact ⟨s, hstep.trans hs⟩
  | @unit unit digits text hunit halone _ ih =>
    have hstep := stringBody_escape (isEscape_unit hunit halone) found (text.map .char ++ .char '"' :: rest)
    obtain ⟨s, hs⟩ := ih (Char.ofNat unit :: found)
    refine ⟨s, ?_⟩
    rw [← hs, ← hstep]
    simp
  | @pair leading trailing digits digits' text hunit hleading hunit' htrailing _ ih =>
    have hstep := stringBody_escape (isEscape_pair hunit hleading hunit' htrailing) found
      (text.map .char ++ .char '"' :: rest)
    obtain ⟨s, hs⟩ := ih (pairedChar leading trailing :: found)
    refine ⟨s, ?_⟩
    rw [← hs, ← hstep]
    simp

theorem exists_readString {text : List Char} (h : IsPaired text) (rest : List Symbol) :
    ∃ s, readString (text.map .char ++ .char '"' :: rest) = .ok (s, rest) :=
  exists_stringBody h [] rest

end Unnest.Json
