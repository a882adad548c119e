import Unnest.Proofs.Flatten.Rows
import Unnest.Proofs.Json.Grammar.Values

/-!
# What becomes of the cells of a text column

A cell is a payload exactly if its text is a JSON object within the limits of the reader (`isSome_ofText?_iff`). A
cell that is none and starts like one, whatever blanks stand in front, is malformed: only JSON space may stand before
a value, so what is read from a text with an opening brace is an object (`exists_object_of_brace`). `OfCell` tells
apart what is read from a cell and reported of it, and a column reports cell by cell (`ofCells_accounted`).

The limits of the reader leave out JSON objects (`payload_iff_object_fails`).
-/

namespace Unnest
open Json Text

namespace Payload
variable {raw : String} {frame column : String} {expected : List String} {row : Nat}

/-! ### Texts that start with a brace -/

theorem isBlank_of_isSpace {gap : List Char} (h : IsSpace gap) : ∀ c ∈ gap, isBlank c = true := by
  intro c hc
  have hspace := h c hc
  simp only [List.mem_cons, List.not_mem_nil, or_false] at hspace
  rcases hspace with rfl | rfl | rfl | rfl <;> rfl

theorem isBlank_of_isDigit {c : Char} (h : c.isDigit = true) : isBlank c = false := by
  have hdigit := Char.isDigit_iff_toNat.1 h
  have hzero : '0'.toNat = 48 := rfl
  have hnine : '9'.toNat = 57 := rfl
  refine Bool.eq_false_iff.2 fun hblank => ?_
  simp only [isBlank, blankRanges, List.any_cons, List.any_nil, Bool.or_eq_true, Bool.and_eq_true, decide_eq_true_eq,
    Bool.false_eq_true, or_false] at hblank
  omega

/-- After JSON space, a text whose first character that is not blank is a brace starts with that brace or with a
blank. -/
theorem brace_or_blank {text : List Char} (h : (dropBlanks text).head? = some '{') {c : Char} {rest : List Symbol}
    (hskip : skipSpace (text.map .char) = .char c :: rest) : c = '{' ∨ isBlank c = true := by
  obtain ⟨gap, hgap, hinput⟩ := exists_skipSpace (text.map .char)
  rw [hskip] at hinput
  obtain ⟨gap', tail, rfl, hmap, htail⟩ := List.map_eq_append_iff.1 hinput
  obtain ⟨c', cs, rfl, hc, -⟩ := List.map_eq_cons_iff.1 htail
  obtain rfl := Symbol.char.inj hc
  obtain rfl := List.map_injective_iff.2 (fun _ _ => Symbol.char.inj) hmap
  cases hblank : isBlank c' with
  | true => exact .inr rfl
  | false =>
    rw [dropBlanks, List.dropWhile_append_of_pos (isBlank_of_isSpace hgap), List.dropWhile_cons_of_neg (by simp [hblank])] at h
    exact .inl (Option.some_inj.1 h)

theorem exists_object_of_brace {text : List Char} (h : (dropBlanks text).head? = some '{') {depth : Nat} {j : Json}
    {rest : List Symbol} (hread : readValue depth (text.map .char) = .ok (j, rest)) : ∃ members, j = .object members := by
  have hfirst : ∀ {c : Char} {rest : List Symbol}, skipSpace (text.map .char) = .char c :: rest →
      c = '{' ∨ isBlank c = true := brace_or_blank h
  rw [readValue.eq_def] at hread
  split at hread
  · cases hread
  iterate 5
    · rename_i hskip
      exact absurd (hfirst hskip) (by decide)
  · cases depth with
    | zero => cases hread
    | succ depth =>
      obtain ⟨⟨members, _⟩, -, hread⟩ := exists_of_bind_eq_ok hread
      cases hread
      exact ⟨members, rfl⟩
  · rename_i hbrace hskip
    split at hread
    · rename_i hnumber
      rcases Bool.or_eq_true_iff.1 hnumber with hminus | hdigit
      · rw [of_decide_eq_true hminus] at hskip
        exact absurd (hfirst hskip) (by decide)
      · obtain ⟨c, rfl, hc⟩ := exists_char_of_isDigit hdigit
        rcases hfirst hskip with rfl | hblank
        · cases hc
        · exact absurd hblank (by simp [isBlank_of_isDigit hc])
    · cases hread

/-! ### What is decoded -/

theorem not_allBlank_of_isObject {limits : Limits} {depth : Nat} (h : IsObject limits depth raw.toList) :
    allBlank raw = false := by
  obtain ⟨front, body, back, htext, -, hbody, -⟩ := h
  have hbrace : '{' ∈ raw.toList := by
    rw [htext]
    cases hbody <;> simp
  refine Bool.eq_false_iff.2 fun hblank => ?_
  exact absurd (List.all_eq_true.1 hblank _ hbrace) (by decide)

theorem decode_eq_ok {payload : Payload} :
    decode raw = .ok payload ↔ allBlank raw = false ∧ parse (raw.toList.map .char) = .ok (.object payload.members) := by
  rw [decode, Symbol.ofString]
  split
  · rename_i hblank
    simp [hblank]
  · rename_i hblank
    rw [Bool.not_eq_true] at hblank
    dsimp only
    split
    · rename_i hparse
      simp [hparse]
    · rename_i members hparse
      rw [hparse]
      constructor
      · intro h
        cases h
        exact ⟨hblank, rfl⟩
      · rintro ⟨-, h⟩
        cases h
        rfl
    · rename_i j hne hparse
      rw [hparse]
      constructor
      · intro h
        cases h
      · intro h
        exact absurd (Except.ok.inj h.2) (hne payload.members)

/-- A cell is a payload exactly if it is a JSON object within the limits of the reader. -/
theorem isSome_ofText?_iff : (ofText? raw).isSome = true ↔ IsObject Limits.reader nestingLimit raw.toList := by
  constructor
  · intro h
    obtain ⟨payload, hp⟩ := Option.isSome_iff_exists.1 h
    exact parse_object_iff.1 ⟨payload.members, (decode_eq_ok.1 (toOption_eq_some.1 hp)).2⟩
  · intro h
    obtain ⟨members, hparse⟩ := parse_object_iff.2 h
    have hdecode : decode raw = .ok ⟨members⟩ := decode_eq_ok.2 ⟨not_allBlank_of_isObject h, hparse⟩
    rw [ofText?, hdecode]
    rfl

/-! ### What is reported -/

/-- What is read from a cell and reported of it. -/
inductive OfCell (frame column : String) (expected : List String) (row : Nat) (raw : String) :
    Option Payload → List Event → Prop
  | empty (h : raw = "") : OfCell frame column expected row raw none []
  | object {payload : Payload} (h : IsObject Limits.reader nestingLimit raw.toList) (hdecode : decode raw = .ok payload) :
    OfCell frame column expected row raw (some payload)
      ((expected.filter fun key => key ∉ Entries.keys payload.members).map (.keyMissing frame column row))
  | corrupted {fault : Fault} {position : Position} (h : ¬ IsObject Limits.reader nestingLimit raw.toList)
    (hbrace : (trimStart raw).toList.head? = some '{') (hdecode : decode raw = .error (.malformed fault position)) :
    OfCell frame column expected row raw none [.payloadCorrupted frame column row (.malformed fault position)]
  | other {error : PayloadError} (hne : raw ≠ "") (h : ¬ IsObject Limits.reader nestingLimit raw.toList)
    (hbrace : (trimStart raw).toList.head? ≠ some '{') (hdecode : decode raw = .error error) :
    OfCell frame column expected row raw none [.noPayload frame column row error]

theorem events_forM_emit {ε κ : Type} (event : κ → ε) (keys : List κ) :
    (keys.forM fun key => Traced.emit (event key)).events = keys.map event := by
  induction keys with
  | nil => rfl
  | cons key keys ih => exact congrArg (event key :: ·) ih

theorem ofCell_of_ok {payload : Payload} (hne : raw ≠ "") (h : decode raw = .ok payload) :
    ofCell frame column expected row raw =
      ⟨some payload, (payload.missingKeys expected).map (.keyMissing frame column row)⟩ := by
  rw [ofCell, if_neg (mt String.isEmpty_iff.1 hne), h]
  refine Traced.ext rfl ?_
  rw [← events_forM_emit]
  exact List.append_nil _

theorem ofCell_of_error {error : PayloadError} (hne : raw ≠ "") (h : decode raw = .error error) :
    ofCell frame column expected row raw =
      ⟨none, [if (trimStart raw).toList.head? = some '{' then .payloadCorrupted frame column row error
        else .noPayload frame column row error]⟩ := by
  rw [ofCell, if_neg (mt String.isEmpty_iff.1 hne), h, trimStart, String.toList_ofList]
  dsimp only
  split <;> rfl

theorem missingKeys_eq (payload : Payload) (expected : List String) :
    payload.missingKeys expected = expected.filter fun key => key ∉ Entries.keys payload.members := by
  refine List.filter_congr fun key _ => ?_
  rw [Bool.eq_iff_iff, Bool.not_eq_true', decide_eq_true_eq, ← Entries.get?_isSome_iff, Bool.not_eq_true]
  rfl

/-- A cell that starts with a brace and is no payload is malformed. -/
theorem exists_malformed {error : PayloadError} (hbrace : (trimStart raw).toList.head? = some '{')
    (h : decode raw = .error error) : ∃ fault position, error = .malformed fault position := by
  rw [trimStart, String.toList_ofList] at hbrace
  rw [decode, Symbol.ofString] at h
  split at h
  · rename_i hblank
    have hnone : dropBlanks raw.toList = [] := List.dropWhile_eq_nil_iff.2 (List.all_eq_true.1 hblank)
    rw [hnone] at hbrace
    cases hbrace
  · dsimp only at h
    split at h
    · cases h
      exact ⟨_, _, rfl⟩
    · cases h
    · rename_i j hne hparse
      obtain ⟨back, -, hread⟩ := parse_eq_ok.1 hparse
      obtain ⟨members, rfl⟩ := exists_object_of_brace hbrace hread
      exact absurd rfl (hne members)

theorem ofCell_cases (frame column : String) (expected : List String) (row : Nat) (raw : String) :
    OfCell frame column expected row raw (ofCell frame column expected row raw).value
      (ofCell frame column expected row raw).events := by
  by_cases hempty : raw = ""
  · subst hempty
    exact .empty rfl
  · cases hdecode : decode raw with
    | ok payload =>
      have hobject := isSome_ofText?_iff.1 (by rw [ofText?, hdecode]; rfl)
      rw [ofCell_of_ok hempty hdecode, missingKeys_eq]
      exact .object hobject hdecode
    | error error =>
      have hobject : ¬ IsObject Limits.reader nestingLimit raw.toList := by
        rw [← isSome_ofText?_iff, ofText?, hdecode]
        exact Bool.false_ne_true
      rw [ofCell_of_error hempty hdecode]
      by_cases hbrace : (trimStart raw).toList.head? = some '{'
      · obtain ⟨fault, position, rfl⟩ := exists_malformed hbrace hdecode
        rw [if_pos hbrace]
        exact .corrupted hobject hbrace hdecode
      · rw [if_neg hbrace]
        exact .other hempty hobject hbrace hdecode

theorem events_ofCells (frame column : String) (expected : List String) (row : Nat) (cells : List String) :
    (ofCells frame column expected row cells).events =
      (cells.mapIdx fun i raw => (ofCell frame column expected (row + i) raw).events).flatten := by
  induction cells generalizing row with
  | nil => rfl
  | cons raw cells ih =>
    rw [ofCells, Traced.events_bind, Traced.events_bind, Traced.events_pure, List.append_nil, ih, List.mapIdx_cons,
      List.flatten_cons]
    simp only [Nat.add_zero, Nat.add_assoc, Nat.add_comm 1]

/-- A column is read cell by cell, each of which is accounted for, and the payloads are the JSON objects within the
limits of the reader. -/
theorem ofCells_accounted (frame column : String) (expected : List String) (cells : List String) :
    (ofCells frame column expected 0 cells).value = cells.map ofText? ∧
      (ofCells frame column expected 0 cells).events =
        (cells.mapIdx fun row raw => (ofCell frame column expected row raw).events).flatten ∧
      ∀ row raw,
        ((ofText? raw).isSome = true ↔ IsObject Limits.reader nestingLimit raw.toList) ∧
        OfCell frame column expected row raw (ofText? raw) (ofCell frame column expected row raw).events := by
  refine ⟨value_ofCells frame column expected 0 cells, ?_, fun row raw => ⟨isSome_ofText?_iff, ?_⟩⟩
  · simpa only [Nat.zero_add] using events_ofCells frame column expected 0 cells
  · rw [← value_ofCell frame column expected row raw]
    exact ofCell_cases frame column expected row raw

-- the space that is no JSON space makes a cell that starts like a payload malformed
example : (ofCells "f" "c" ["k"] 0 ["", "\x7b\x7d", "\u00a0\x7b\x7d", "7"]).events =
    [.keyMissing "f" "c" 1 "k", .payloadCorrupted "f" "c" 2 (.malformed .expectedValue ⟨1, 1⟩),
      .noPayload "f" "c" 3 .notAnObject] := by
  decide +kernel

/-! ### Beyond the limits -/

/-- The text of an object with one member. -/
def objectWith (value : List Char) : String :=
  String.ofList (['{', '"', 'a', '"', ':'] ++ (value ++ ['}']))

theorem isObject_objectWith {depth : Nat} {value : List Char} (h : Derives Limits.none .value depth value) :
    IsObject .none (depth + 1) (objectWith value).toList := by
  have hkey : IsBody Limits.none.alone ['a'] := .plain (by decide) (by decide) (by decide) .nil
  have hmember := Derives.member isSpace_nil hkey isSpace_nil (.element isSpace_nil h isSpace_nil)
  refine ⟨[], _, [], ?_, isSpace_nil, .members (.lastMember hmember), isSpace_nil⟩
  simp [objectWith]

/-- Lists in lists. -/
def brackets (depth : Nat) : List Char := List.replicate depth '[' ++ List.replicate depth ']'

theorem brackets_succ (depth : Nat) : brackets (depth + 1) = '[' :: (brackets depth ++ [']']) := by
  rw [brackets, brackets, List.replicate_succ, List.replicate_succ', List.append_assoc, List.cons_append]

theorem derives_brackets (limits : Limits) (depth : Nat) :
    Derives limits .list (depth + 1) (brackets (depth + 1)) := by
  induction depth with
  | zero => exact .emptyList isSpace_nil
  | succ depth ih =>
    have h := Derives.elements (.lastElement (.element isSpace_nil (.list ih) isSpace_nil))
    rwa [List.append_nil, List.nil_append, ← brackets_succ] at h

/-- A reader that may open too few lists fails. -/
theorem readValue_brackets (depth : Nat) (rest : List Symbol) :
    ∃ failure, readValue depth ((List.replicate (depth + 1) '[').map .char ++ rest) = .error failure := by
  induction depth with
  | zero => exact ⟨_, rfl⟩
  | succ depth ih =>
    obtain ⟨failure, hfailure⟩ := ih
    have hinput : (List.replicate (depth + 1 + 1) '[').map Symbol.char ++ rest =
        .char '[' :: ((List.replicate (depth + 1) '[').map .char ++ rest) := rfl
    have hnext : nextItem true ((List.replicate (depth + 1) '[').map .char ++ rest) =
        .ok (true, (List.replicate (depth + 1) '[').map .char ++ rest) := rfl
    refine ⟨failure, ?_⟩
    rw [hinput, readValue_array, readList, listItems, hnext]
    simp only [hfailure]
    rfl

theorem readValue_objectWith (depth : Nat) :
    ∃ failure, readValue (depth + 1) ((objectWith (brackets (depth + 1))).toList.map .char) = .error failure := by
  obtain ⟨failure, hfailure⟩ := readValue_brackets depth ((List.replicate (depth + 1) ']' ++ ['}']).map .char)
  refine ⟨failure, ?_⟩
  generalize hinner : (List.replicate (depth + 1) '[').map Symbol.char ++ _ = inner at hfailure
  have hinput : (objectWith (brackets (depth + 1))).toList.map Symbol.char =
      .char '{' :: .char '"' :: .char 'a' :: .char '"' :: .char ':' :: inner := by
    rw [← hinner, objectWith, brackets, String.toList_ofList]
    simp
  have hmember : putMember depth [] "a" (.char ':' :: inner) = .error failure := by
    have hcolon : readColon (.char ':' :: inner) = .ok inner := rfl
    simp only [putMember, hcolon, hfailure, bind, Except.bind]
  have hkey : readString (.char 'a' :: .char '"' :: .char ':' :: inner) = .ok ("a", .char ':' :: inner) := rfl
  have hnext : nextKey true (.char '"' :: .char 'a' :: .char '"' :: .char ':' :: inner) =
      .ok (true, .char 'a' :: .char '"' :: .char ':' :: inner) := rfl
  rw [hinput, readValue_object, readMembers, foldMembers, hnext]
  simp only [hkey, hmember, bind, Except.bind]

/-- Objects that are not read: a number is out of range, a surrogate stands alone, too many lists are open. -/
theorem payload_iff_object_fails :
    (IsObject .none 1 (objectWith ['1', 'e', '4', '0', '0']).toList ∧
      ofText? (objectWith ['1', 'e', '4', '0', '0']) = none) ∧
    (IsObject .none 1 (objectWith ['"', '\\', 'u', 'd', '8', '0', '0', '"']).toList ∧
      ofText? (objectWith ['"', '\\', 'u', 'd', '8', '0', '0', '"']) = none) ∧
    IsObject .none 128 (objectWith (brackets 127)).toList ∧ ofText? (objectWith (brackets 127)) = none := by
  have hnumeral : IsNumeral ['1', 'e', '4', '0', '0'] :=
    ⟨[], by simp, ['1'], [], ['e', '4', '0', '0'], rfl, ⟨⟨by simp [Digits], by simp⟩, by simp⟩, .inl rfl,
      .inr ⟨'e', by simp, [], by simp, ['4', '0', '0'], rfl, by simp [Digits], by simp⟩⟩
  have hunit : IsUnit 0xD800 ['d', '8', '0', '0'] := ⟨rfl, [13, 8, 0, 0], rfl, rfl⟩
  have hbody : IsBody Limits.none.alone ['\\', 'u', 'd', '8', '0', '0'] := .unit hunit trivial .nil
  refine ⟨⟨isObject_objectWith (.number hnumeral trivial), ?_⟩, ⟨isObject_objectWith (.string hbody), ?_⟩,
    isObject_objectWith (.list (derives_brackets .none 126)), ?_⟩
  · exact Option.isNone_iff_eq_none.1 (by decide +kernel)
  · exact Option.isNone_iff_eq_none.1 (by decide +kernel)
  · obtain ⟨failure, hread⟩ := readValue_objectWith 126
    refine Option.not_isSome_iff_eq_none.1 fun hsome => ?_
    obtain ⟨payload, hp⟩ := Option.isSome_iff_exists.1 hsome
    obtain ⟨back, -, hparse⟩ := parse_eq_ok.1 (decode_eq_ok.1 (toOption_eq_some.1 hp)).2
    cases hread.symm.trans hparse

end Payload

end Unnest
