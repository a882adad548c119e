import Unnest.Proofs.Entries
import Unnest.Proofs.Json.Number

/-!
# Written values are read back

`Json.again` is what the text of a value says: numbers are read again, infinities and not-a-number have
become null, and of members with one key the last counts. `Readable depth j` says that `j` could have
been read where `depth` containers may be opened; everything that is read is (`readable_of_readValue`). The
text of such a value, on one line or over several, is read as that value again (`Readable.reads_render`).
When all its doubles are read back, that is the value itself (`Readable.again_eq_self`).
-/

namespace Unnest
open Text

namespace Json

/-- The value that the text of a number says. -/
def Number.again (n : Number) : Json :=
  match readNumber (n.render.map .char) with
  | .ok (m, _) => .number m
  | .error _ => .null

mutual

/-- The value that the text of a value says. -/
def again : Json → Json
  | .number n => n.again
  | .array items => .array (againItems items)
  | .object members => .object (Entries.ofList (againMembers members))
  | j => j

def againItems : List Json → List Json
  | [] => []
  | item :: items => again item :: againItems items

def againMembers : List (String × Json) → List (String × Json)
  | [] => []
  | (key, value) :: members => (key, again value) :: againMembers members

end

mutual

/-- The doubles in a value. -/
def floats : Json → List Float
  | .number (.real x) => [x]
  | .array items => itemFloats items
  | .object members => memberFloats members
  | _ => []

def itemFloats : List Json → List Float
  | [] => []
  | item :: items => floats item ++ itemFloats items

def memberFloats : List (String × Json) → List Float
  | [] => []
  | (_, value) :: members => floats value ++ memberFloats members

end

theorem againItems_eq_map (items : List Json) : againItems items = items.map again := by
  induction items with
  | nil => rfl
  | cons item items ih => rw [againItems, ih, List.map_cons]

theorem againMembers_eq_map (members : List (String × Json)) :
    againMembers members = members.map fun m => (m.1, again m.2) := by
  induction members with
  | nil => rfl
  | cons m members ih => rw [againMembers, ih, List.map_cons]

theorem mem_itemFloats {x : Float} {item : Json} {items : List Json} (hitem : item ∈ items)
    (hx : x ∈ floats item) : x ∈ itemFloats items := by
  induction items with
  | nil => cases hitem
  | cons first items ih =>
    rw [itemFloats, List.mem_append]
    rcases List.mem_cons.1 hitem with rfl | hrest
    · exact .inl hx
    · exact .inr (ih hrest)

theorem mem_memberFloats {x : Float} {m : String × Json} {members : List (String × Json)} (hm : m ∈ members)
    (hx : x ∈ floats m.2) : x ∈ memberFloats members := by
  induction members with
  | nil => cases hm
  | cons first members ih =>
    rw [memberFloats, List.mem_append]
    rcases List.mem_cons.1 hm with rfl | hrest
    · exact .inl hx
    · exact .inr (ih hrest)

/-- What can be read where so many containers may be opened. -/
inductive Readable : Nat → Json → Prop
  | null (depth : Nat) : Readable depth .null
  | bool (depth : Nat) (b : Bool) : Readable depth (.bool b)
  | number (depth : Nat) {n : Number} (h : n.Canonical) : Readable depth (.number n)
  | string (depth : Nat) (s : String) : Readable depth (.string s)
  | array {depth : Nat} {items : List Json} (h : ∀ item ∈ items, Readable depth item) :
    Readable (depth + 1) (.array items)
  | object {depth : Nat} {members : List (String × Json)} (h : ∀ m ∈ members, Readable depth m.2)
    (nodup : (Entries.keys members).Nodup) : Readable (depth + 1) (.object members)

/-! ### The first symbol of a value -/

/-- Whether a character starts a number. -/
def startsNumber (c : Char) : Bool := c = '-' || c.isDigit

theorem isSpace_of_startsNumber {c : Char} (hc : startsNumber c = true) : isSpace (.char c) = false := by
  by_contra hspace
  simp only [isSpace, Bool.or_eq_false_iff, decide_eq_false_iff_not, not_and_or, not_not] at hspace
  rcases hspace with ((h | h) | h) | h <;> cases h <;> cases hc

theorem isNumber_of_startsNumber {c : Char} (hc : startsNumber c = true) :
    (decide (Symbol.char c = .char '-') || isDigit (.char c)) = true := by
  simp only [startsNumber, Bool.or_eq_true, decide_eq_true_eq] at hc ⊢
  rcases hc with rfl | hdigit
  · exact .inl rfl
  · exact .inr (by rw [isDigit, digit?_of_isDigit hdigit]; rfl)

theorem starts_of_startsNumber {c : Char} (hc : startsNumber c = true) (cs : List Char) : Starts (c :: cs) := by
  refine ⟨c, cs, rfl, isSpace_of_startsNumber hc, ?_⟩
  rintro rfl
  cases hc

theorem exists_startsNumber {n : Number} (hn : n.isFinite = true) :
    ∃ c cs, n.render = c :: cs ∧ startsNumber c = true := by
  obtain ⟨m, hread⟩ := exists_readNumber hn
  have hread := hread [] ends_nil
  rw [List.append_nil] at hread
  generalize n.render = text at hread
  cases text with
  | nil => cases hread
  | cons c cs =>
    refine ⟨c, cs, rfl, ?_⟩
    -- the reader refuses a number that starts in another way
    by_contra hc
    obtain ⟨hminus, hdigit⟩ : c ≠ '-' ∧ ¬ c.isDigit = true := by simpa [startsNumber] using hc
    have hnone : digit? (.char c) = none := if_neg hdigit
    simp [readNumber, hminus, Numeral.read, hnone, bind, Except.bind] at hread

theorem render_of_not_finite {n : Number} (hn : n.isFinite = false) : n.render = ['n', 'u', 'l', 'l'] := by
  cases n with
  | natural n => cases hn
  | negative n => cases hn
  | real x => exact if_neg (by simpa [Number.isFinite] using hn)

theorem again_of_not_finite {n : Number} (hn : n.isFinite = false) : n.again = .null := by
  rw [Number.again, render_of_not_finite hn]
  rfl

theorem again_of_readNumber {n m : Number}
    (hread : ∀ rest, Ends rest → readNumber (n.render.map .char ++ rest) = .ok (m, rest)) :
    n.again = .number m := by
  have hempty := hread [] ends_nil
  rw [List.append_nil] at hempty
  rw [Number.again, hempty]

theorem starts_number (n : Number) : Starts n.render := by
  cases hn : n.isFinite with
  | false =>
    rw [render_of_not_finite hn]
    exact ⟨'n', _, rfl, rfl, by decide⟩
  | true =>
    obtain ⟨c, cs, htext, hc⟩ := exists_startsNumber hn
    rw [htext]
    exact starts_of_startsNumber hc cs

theorem exists_render_array (depth : Option Nat) (items : List Json) :
    ∃ body, render depth (.array items) = '[' :: body := by
  cases items <;> exact ⟨_, by rw [render] <;> rfl⟩

theorem exists_render_object (depth : Option Nat) (members : List (String × Json)) :
    ∃ body, render depth (.object members) = '{' :: body := by
  cases members <;> exact ⟨_, by rw [render] <;> rfl⟩

theorem starts_render (depth : Option Nat) (j : Json) : Starts (render depth j) := by
  cases j with
  | null => exact ⟨'n', _, rfl, rfl, by decide⟩
  | bool b => cases b <;> exact ⟨_, _, rfl, rfl, by decide⟩
  | number n =>
    rw [render]
    exact starts_number n
  | string s => exact ⟨'"', _, by rw [render, quote]; rfl, rfl, by decide⟩
  | array items =>
    obtain ⟨body, hbody⟩ := exists_render_array depth items
    exact ⟨'[', body, hbody, rfl, by decide⟩
  | object members =>
    obtain ⟨body, hbody⟩ := exists_render_object depth members
    exact ⟨'{', body, hbody, rfl, by decide⟩

/-! ### Reading what was written -/

theorem skipSpace_skipSpace (input : List Symbol) : skipSpace (skipSpace input) = skipSpace input := by
  induction input with
  | nil => rfl
  | cons s rest ih =>
    cases hs : isSpace s with
    | false => rw [skipSpace_cons hs, skipSpace_cons hs]
    | true =>
      have hdrop : skipSpace (s :: rest) = skipSpace rest := List.dropWhile_cons_of_pos hs
      rw [hdrop, ih]

/-- A reader that passes over space first needs to be followed from the first symbol only. -/
theorem reads_of_skipSpace {α : Type} {reader : Reader α} {text : List Char} {answer : Option α}
    (hskip : ∀ input, reader (skipSpace input) = reader input) (hstart : Starts text)
    (h : ∀ rest, Ends rest → (reader (text.map .char ++ rest)).toOption = answer.map (·, rest)) :
    Reads reader text answer := by
  intro gap rest hgap hrest
  obtain ⟨c, cs, rfl, hc, -⟩ := hstart
  rw [← hskip, skipSpace_append hgap, hskip, h rest hrest]

section
variable {depth : Nat}

theorem readValue_skipSpace (input : List Symbol) : readValue depth (skipSpace input) = readValue depth input := by
  rw [readValue.eq_def, readValue.eq_def depth input, skipSpace_skipSpace]

theorem readValue_number {c : Char} (hc : startsNumber c = true) (rest : List Symbol) :
    readValue depth (.char c :: rest)
      = (do
          let (n, rest) ← readNumber (.char c :: rest)
          return (.number n, rest)) := by
  rw [readValue, skipSpace_cons (isSpace_of_startsNumber hc)]
  split
  iterate 7 · rename_i hfirst; cases hfirst <;> cases hc
  · rename_i hfirst
    cases hfirst
    rw [if_pos (isNumber_of_startsNumber hc)]

theorem readValue_string (rest : List Symbol) :
    readValue depth (.char '"' :: rest)
      = (do
          let (s, rest) ← readString rest
          return (.string s, rest)) := by
  rw [readValue]
  rfl

theorem readValue_array (rest : List Symbol) :
    readValue (depth + 1) (.char '[' :: rest)
      = (do
          let (items, rest) ← readList (readValue depth) rest
          return (.array items, rest)) := by
  rw [readValue]
  rfl

/-- Reads the value of a member and puts it under its key. -/
def putMember (depth : Nat) (members : List (String × Json)) (key : String) : Reader (List (String × Json)) :=
  fun input => do
    let rest ← readColon input
    let (value, rest) ← readValue depth rest
    return (Entries.put members key value, rest)

theorem readValue_object (rest : List Symbol) :
    readValue (depth + 1) (.char '{' :: rest)
      = (do
          let (members, rest) ← readMembers (putMember depth) [] rest
          return (.object members, rest)) := by
  rw [readValue]
  rfl

theorem reads_null : Reads (readValue depth) ['n', 'u', 'l', 'l'] (some .null) := by
  refine reads_of_skipSpace readValue_skipSpace ⟨'n', _, rfl, rfl, by decide⟩ fun rest _ => ?_
  rw [readValue]
  rfl

theorem reads_number (n : Number) : Reads (readValue depth) n.render (some n.again) := by
  cases hn : n.isFinite with
  | false =>
    rw [render_of_not_finite hn, again_of_not_finite hn]
    exact reads_null
  | true =>
    refine reads_of_skipSpace readValue_skipSpace (starts_number n) fun rest hrest => ?_
    obtain ⟨m, hread⟩ := exists_readNumber hn
    obtain ⟨c, cs, htext, hc⟩ := exists_startsNumber hn
    rw [again_of_readNumber hread]
    have hread := hread rest hrest
    rw [htext, List.map_cons, List.cons_append] at hread ⊢
    rw [readValue_number hc, hread]
    rfl

theorem reads_bool (b : Bool) (place : Option Nat) :
    Reads (readValue depth) (render place (.bool b)) (some (.bool b)) := by
  refine reads_of_skipSpace readValue_skipSpace (starts_render place (.bool b)) fun rest _ => ?_
  cases b <;> rw [readValue, render] <;> rfl

theorem reads_string (s : String) : Reads (readValue depth) (quote s) (some (.string s)) := by
  refine reads_of_skipSpace readValue_skipSpace ⟨'"', _, rfl, rfl, by decide⟩ fun rest _ => ?_
  have hread := readString_quote s rest
  rw [quote, List.cons_append, List.map_cons, List.cons_append, readValue_string, hread]
  rfl

theorem putMember_colon {again : Json} {text : List Char} (place : Option Nat)
    (h : Reads (readValue depth) text (some again)) (members : List (String × Json)) (key : String)
    {rest : List Symbol} (hrest : Ends rest) :
    (putMember depth members key ((colon place ++ text).map .char ++ rest)).toOption
      = some (Entries.put members key again, rest) :=
  h.after_colon place hrest _

theorem Readable.reads_render {j : Json} (h : Readable depth j) (place : Option Nat) :
    Reads (readValue depth) (render place j) (some j.again) := by
  induction h generalizing place with
  | null depth => exact reads_null
  | bool depth b => exact reads_bool b place
  | number depth h =>
    rw [render, again]
    exact reads_number _
  | string depth s =>
    rw [render]
    exact reads_string s
  | @array depth items h ih =>
    refine reads_of_skipSpace readValue_skipSpace (starts_render place (.array items)) fun rest _ => ?_
    obtain ⟨body, hbody⟩ := exists_render_array place items
    have hread := readList_render id (fun item => some item.again)
      (fun item _ => starts_render _ item) (fun item hitem => ih item hitem _)
      (by rwa [List.map_id]) rest
    have hitems : items.mapM (fun item => some item.again) = some (againItems items) := by
      rw [againItems_eq_map]
      exact List.mapM_pure
    rw [hbody, List.map_cons, List.cons_append, readValue_array, toOption_bind, hread, hitems]
    rfl
  | @object depth members h nodup ih =>
    refine reads_of_skipSpace readValue_skipSpace (starts_render place (.object members)) fun rest _ => ?_
    obtain ⟨body, hbody⟩ := exists_render_object place members
    have hread := readMembers_render (putMember depth) (fun gathered m => some (Entries.put gathered m.1 m.2.again))
      (fun m hm gathered rest hrest => putMember_colon place (ih m hm _) gathered m.1 hrest) hbody [] rest
    have hmembers : members.foldlM (fun gathered m => some (Entries.put gathered m.1 m.2.again)) []
        = some (Entries.ofList (againMembers members)) := by
      rw [againMembers_eq_map, Entries.ofList, List.foldl_map]
      exact List.foldlM_pure
    rw [hbody, List.map_cons, List.cons_append, readValue_object, toOption_bind, hread, hmembers]
    rfl

end

/-! ### What is read -/

/-- What has been read of an object whose values may open so many containers. -/
def ReadableMembers (depth : Nat) (members : List (String × Json)) : Prop :=
  (∀ m ∈ members, Readable depth m.2) ∧ (Entries.keys members).Nodup

theorem readableMembers_nil {depth : Nat} : ReadableMembers depth [] := ⟨nofun, List.nodup_nil⟩

theorem readableMembers_putMember {depth : Nat}
    (hvalue : ∀ input j rest, readValue depth input = .ok (j, rest) → Readable depth j)
    {members next : List (String × Json)} {key : String} {input rest : List Symbol}
    (hmembers : ReadableMembers depth members) (h : putMember depth members key input = .ok (next, rest)) :
    ReadableMembers depth next := by
  obtain ⟨start, -, h⟩ := exists_of_bind_eq_ok h
  obtain ⟨⟨value, _⟩, hread, h⟩ := exists_of_bind_eq_ok h
  cases h
  refine ⟨fun m hm => ?_, Entries.nodup_put key value hmembers.2⟩
  rcases Entries.mem_put hm with rfl | hm
  · exact hvalue _ _ _ hread
  · exact hmembers.1 m hm

/-- One level of `readable_of_readValue`; the levels inside are a hypothesis. -/
theorem readable_of_inner {depth : Nat}
    (hinner : ∀ d input j rest, depth = d + 1 → readValue d input = .ok (j, rest) → Readable d j)
    {input rest : List Symbol} {j : Json} (h : readValue depth input = .ok (j, rest)) : Readable depth j := by
  rw [readValue.eq_def] at h
  split at h
  · cases h
  · obtain ⟨_, -, h⟩ := exists_of_bind_eq_ok h
    cases h
    exact .null depth
  · obtain ⟨_, -, h⟩ := exists_of_bind_eq_ok h
    cases h
    exact .bool depth true
  · obtain ⟨_, -, h⟩ := exists_of_bind_eq_ok h
    cases h
    exact .bool depth false
  · obtain ⟨⟨s, _⟩, -, h⟩ := exists_of_bind_eq_ok h
    cases h
    exact .string depth s
  · cases depth with
    | zero => cases h
    | succ depth =>
      obtain ⟨⟨items, _⟩, hitems, h⟩ := exists_of_bind_eq_ok h
      cases h
      exact .array (forall_of_readList (hinner depth · · · rfl) hitems)
  · cases depth with
    | zero => cases h
    | succ depth =>
      obtain ⟨⟨members, _⟩, hmembers, h⟩ := exists_of_bind_eq_ok h
      cases h
      obtain ⟨hall, hnodup⟩ := invariant_of_readMembers
        (fun gathered key input next rest => readableMembers_putMember (hinner depth · · · rfl))
        readableMembers_nil hmembers
      exact .object hall hnodup
  · split at h
    · obtain ⟨⟨n, _⟩, hn, h⟩ := exists_of_bind_eq_ok h
      cases h
      exact .number depth (canonical_of_readNumber hn)
    · cases h

theorem readable_of_readValue {depth : Nat} {input rest : List Symbol} {j : Json}
    (h : readValue depth input = .ok (j, rest)) : Readable depth j := by
  induction depth generalizing input rest j with
  | zero => exact readable_of_inner (fun d _ _ _ hd => absurd hd (Nat.succ_ne_zero d).symm) h
  | succ depth ih =>
    refine readable_of_inner (fun d input j rest hd hread => ?_) h
    cases hd
    exact ih hread

/-! ### Values that are read back unchanged -/

theorem again_natural (n : UInt64) : (Number.natural n).again = .number (.natural n) := by
  have h := readNumber_natural n ends_nil
  rw [List.append_nil] at h
  rw [Number.again, h]

theorem again_negative {n : Int64} (hn : n.toInt < 0) : (Number.negative n).again = .number (.negative n) := by
  have h := readNumber_negative hn ends_nil
  rw [List.append_nil] at h
  rw [Number.again, h]

/-- A value all of whose doubles are read back is read back. -/
theorem Readable.again_eq_self {depth : Nat} {j : Json} (h : Readable depth j)
    (hfloats : ∀ x ∈ j.floats, (Number.real x).again = .number (.real x)) : j.again = j := by
  induction h with
  | null | bool | string => rfl
  | @number depth n h =>
    cases n with
    | natural n => exact again_natural n
    | negative n => exact again_negative h
    | real x => exact hfloats x List.mem_cons_self
  | @array depth items h ih =>
    rw [again, againItems_eq_map]
    have hitems : items.map again = items.map id :=
      List.map_congr_left fun item hitem => ih item hitem fun x hx => hfloats x (mem_itemFloats hitem hx)
    rw [hitems, List.map_id]
  | @object depth members h nodup ih =>
    rw [again, againMembers_eq_map]
    have hmembers : members.map (fun m => (m.1, again m.2)) = members.map id :=
      List.map_congr_left fun m hm =>
        congrArg (m.1, ·) (ih m hm fun x hx => hfloats x (mem_memberFloats hm hx))
    rw [hmembers, List.map_id, Entries.ofList_eq_self nodup]

/-! ### Comparing values -/

mutual

/-- Whether two values are the same. -/
def same : Json → Json → Bool
  | .null, .null => true
  | .bool a, .bool b => a = b
  | .number m, .number n => m = n
  | .string s, .string t => s = t
  | .array as, .array bs => sameItems as bs
  | .object as, .object bs => sameMembers as bs
  | _, _ => false

def sameItems : List Json → List Json → Bool
  | [], [] => true
  | a :: as, b :: bs => same a b && sameItems as bs
  | _, _ => false

def sameMembers : List (String × Json) → List (String × Json) → Bool
  | [], [] => true
  | (k, a) :: as, (l, b) :: bs => k = l && same a b && sameMembers as bs
  | _, _ => false

end

mutual

theorem same_iff : (a b : Json) → (same a b ↔ a = b)
  | .null, b => by cases b <;> simp [same]
  | .bool _, b => by cases b <;> simp [same]
  | .number _, b => by cases b <;> simp [same]
  | .string _, b => by cases b <;> simp [same]
  | .array as, b => by cases b <;> simp [same, sameItems_iff as]
  | .object as, b => by cases b <;> simp [same, sameMembers_iff as]

theorem sameItems_iff : (as bs : List Json) → (sameItems as bs ↔ as = bs)
  | [], bs => by cases bs <;> simp [sameItems]
  | a :: as, bs => by cases bs <;> simp [sameItems, same_iff a, sameItems_iff as]

theorem sameMembers_iff : (as bs : List (String × Json)) → (sameMembers as bs ↔ as = bs)
  | [], bs => by cases bs <;> simp [sameMembers]
  | (k, a) :: as, bs => by
    cases bs <;> simp [sameMembers, same_iff a, sameMembers_iff as, Prod.ext_iff, and_assoc]

end

instance : DecidableEq Json := fun a b => decidable_of_iff (same a b) (same_iff a b)

end Json

end Unnest
