import Unnest.Proofs.Json.Grammar.Range
import Unnest.Proofs.Json.Grammar.Strings
import Unnest.Proofs.Json.Grammar.Tokens
import Unnest.Proofs.Json.Value

/-!
# Values and the grammar

A text is read as a value exactly if it is JSON within the limits of the reader, and as an object exactly if it is an
object there (`parse_iff`, `parse_object_iff`). What has been read derives: a reader that stops before something
that may follow a value has passed over space and a text of the grammar (`derives_of_readValue`). What derives is
read: `Accepted` says for each kind of text what the readers do before it, and every rule of the grammar keeps that
(`accepted_of_derives`).
-/

namespace Unnest.Json
open Text

/-- A text derives within the limits of the reader. -/
abbrev Allowed (kind : Kind) (depth : Nat) (text : List Char) : Prop := Derives Limits.reader kind depth text

/-! ### What is read -/

/-- The kind of the text of a value. -/
def kindOf : Json → Kind
  | .object _ => .object
  | _ => .value

/-- What a reader took from an input is space and the text of a value. -/
def Sound (depth : Nat) : Prop :=
  ∀ {input rest : List Symbol} {j : Json}, readValue depth input = .ok (j, rest) → Ends rest →
    ∃ gap text, IsSpace gap ∧ input = gap.map .char ++ (text.map .char ++ rest) ∧ Allowed (kindOf j) depth text

/-- What may follow an item before the closing bracket: space, and perhaps a comma and more of the kind. -/
def Follows (kind : Kind) (depth : Nat) (text : List Char) : Prop :=
  ∃ gap, IsSpace gap ∧ (text = gap ∨ ∃ others, text = gap ++ ',' :: others ∧ Allowed kind depth others)

section
variable {depth : Nat} {kind : Kind} {front text tail : List Char}

theorem Allowed.value {j : Json} (h : Allowed (kindOf j) depth text) : Allowed .value depth text := by
  cases j with
  | object members => exact .object h
  | _ => exact h

theorem Follows.ends (h : Follows kind depth tail) {bracket : Char} (hbracket : continuesNumber (.char bracket) = false)
    (rest : List Symbol) : Ends (tail.map .char ++ .char bracket :: rest) := by
  obtain ⟨gap, hgap, rfl | ⟨others, rfl, -⟩⟩ := h
  · exact ends_append hgap.isSpace_map (ends_cons.2 hbracket)
  · rw [List.map_append, List.append_assoc]
    exact ends_append hgap.isSpace_map (ends_cons.2 rfl)

theorem allowed_elements (hfront : IsSpace front) (h : Allowed .value depth text) (htail : Follows .elements depth tail) :
    Allowed .elements depth (front ++ (text ++ tail)) := by
  obtain ⟨gap, hgap, rfl | ⟨others, rfl, hothers⟩⟩ := htail
  · exact .lastElement (.element hfront h hgap)
  · have h := Derives.nextElement (.element hfront h hgap) hothers
    rwa [List.append_assoc, List.append_assoc] at h

theorem allowed_members {key gap gap' : List Char} (hfront : IsSpace front) (hkey : IsPaired key) (hgap : IsSpace gap)
    (hgap' : IsSpace gap') (h : Allowed .value depth text) (htail : Follows .members depth tail) :
    Allowed .members depth (front ++ '"' :: (key ++ '"' :: (gap ++ ':' :: (gap' ++ (text ++ tail))))) := by
  obtain ⟨gap'', hgap'', rfl | ⟨others, rfl, hothers⟩⟩ := htail
  · exact .lastMember (.member hfront hkey hgap (.element hgap' h hgap''))
  · have h := Derives.nextMember (.member hfront hkey hgap (.element hgap' h hgap'')) hothers
    simpa only [List.append_assoc, List.cons_append] using h

/-- An item of a list and what follows it. -/
theorem Sound.item (hitem : Sound depth) {start left rest : List Symbol} {b : Json}
    (hread : readValue depth start = .ok (b, left)) (htail : Follows .elements depth tail)
    (hleft : left = tail.map .char ++ .char ']' :: rest) (hfront : IsSpace front) :
    ∃ others, front.map .char ++ start = others.map .char ++ .char ']' :: rest ∧ Allowed .elements depth others := by
  obtain ⟨gap, text, hgap, rfl, htext⟩ := hitem hread (hleft ▸ htail.ends rfl rest)
  refine ⟨_, ?_, allowed_elements (hfront.append hgap) htext.value htail⟩
  rw [hleft]
  simp

theorem follows_of_listItems (hitem : Sound depth) {fuel : Nat} {found items : List Json} {input rest : List Symbol}
    (h : listItems (readValue depth) fuel false found input = .ok (items, rest)) :
    ∃ tail, input = tail.map .char ++ .char ']' :: rest ∧ Follows .elements depth tail := by
  induction fuel generalizing found input with
  | zero => cases h
  | succ fuel ih =>
    rw [listItems] at h
    split at h
    · cases h
    · rename_i hnext
      cases h
      obtain ⟨gap, hgap, hinput⟩ := exists_of_nextItem_close hnext
      exact ⟨gap, hinput, gap, hgap, .inl rfl⟩
    · rename_i hnext
      split at h
      · rename_i hread
        obtain ⟨tail, hleft, htail⟩ := ih h
        obtain ⟨gap, gap', hgap, hgap', hinput⟩ := exists_of_nextItem_later hnext
        obtain ⟨others, hstart, hothers⟩ := hitem.item hread htail hleft hgap'
        refine ⟨gap ++ ',' :: others, ?_, gap, hgap, .inr ⟨others, rfl, hothers⟩⟩
        rw [hinput, hstart]
        simp
      · cases h

theorem allowed_of_readList (hitem : Sound depth) {items : List Json} {input rest : List Symbol}
    (h : readList (readValue depth) input = .ok (items, rest)) :
    ∃ text, .char '[' :: input = text.map .char ++ rest ∧ Allowed .list (depth + 1) text := by
  rw [readList, listItems] at h
  split at h
  · cases h
  · rename_i hnext
    cases h
    obtain ⟨gap, hgap, rfl⟩ := exists_of_nextItem_close hnext
    exact ⟨_, by simp, .emptyList hgap⟩
  · rename_i hnext
    split at h
    · rename_i hread
      obtain ⟨tail, hleft, htail⟩ := follows_of_listItems hitem h
      obtain ⟨gap, hgap, hinput⟩ := exists_of_nextItem_first hnext
      obtain ⟨others, hstart, hothers⟩ := hitem.item hread htail hleft hgap
      refine ⟨_, ?_, .elements hothers⟩
      rw [hinput, hstart]
      simp
    · cases h

/-- A member of an object and what follows it. -/
theorem Sound.member (hvalue : Sound depth) {start after left rest : List Symbol} {key : String}
    {members next : List (String × Json)} (hkey : readString start = .ok (key, after))
    (hput : putMember depth members key after = .ok (next, left)) (htail : Follows .members depth tail)
    (hleft : left = tail.map .char ++ .char '}' :: rest) (hfront : IsSpace front) :
    ∃ others, front.map .char ++ .char '"' :: start = others.map .char ++ .char '}' :: rest ∧
      Allowed .members depth others := by
  obtain ⟨body, hbody, rfl⟩ := isPaired_of_readString hkey
  obtain ⟨start, hcolon, hbind⟩ := exists_of_bind_eq_ok hput
  obtain ⟨⟨value, _⟩, hread, hpure⟩ := exists_of_bind_eq_ok hbind
  cases hpure
  obtain ⟨gap, hgap, rfl⟩ := exists_of_readColon hcolon
  obtain ⟨gap', text, hgap', rfl, htext⟩ := hvalue hread (hleft ▸ htail.ends rfl rest)
  refine ⟨_, ?_, allowed_members hfront hbody hgap hgap' htext.value htail⟩
  rw [hleft]
  simp

theorem follows_of_foldMembers (hvalue : Sound depth) {fuel : Nat} {gathered last : List (String × Json)}
    {input rest : List Symbol} (h : foldMembers (putMember depth) fuel false gathered input = .ok (last, rest)) :
    ∃ tail, input = tail.map .char ++ .char '}' :: rest ∧ Follows .members depth tail := by
  induction fuel generalizing gathered input with
  | zero => cases h
  | succ fuel ih =>
    rw [foldMembers] at h
    split at h
    · cases h
    · rename_i hnext
      cases h
      obtain ⟨gap, hgap, hinput⟩ := exists_of_nextKey_close hnext
      exact ⟨gap, hinput, gap, hgap, .inl rfl⟩
    · rename_i hnext
      split at h
      · cases h
      · rename_i hkey
        split at h
        · rename_i hread
          obtain ⟨tail, hleft, htail⟩ := ih h
          obtain ⟨gap, gap', hgap, hgap', hinput⟩ := exists_of_nextKey_later hnext
          obtain ⟨others, hstart, hothers⟩ := hvalue.member hkey hread htail hleft hgap'
          refine ⟨gap ++ ',' :: others, ?_, gap, hgap, .inr ⟨others, rfl, hothers⟩⟩
          rw [hinput, hstart]
          simp
        · cases h

theorem allowed_of_readMembers (hvalue : Sound depth) {members : List (String × Json)} {input rest : List Symbol}
    (h : readMembers (putMember depth) [] input = .ok (members, rest)) :
    ∃ text, .char '{' :: input = text.map .char ++ rest ∧ Allowed .object (depth + 1) text := by
  rw [readMembers, foldMembers] at h
  split at h
  · cases h
  · rename_i hnext
    cases h
    obtain ⟨gap, hgap, rfl⟩ := exists_of_nextKey_close hnext
    exact ⟨_, by simp, .emptyObject hgap⟩
  · rename_i hnext
    split at h
    · cases h
    · rename_i hkey
      split at h
      · rename_i hread
        obtain ⟨tail, hleft, htail⟩ := follows_of_foldMembers hvalue h
        obtain ⟨gap, hgap, hinput⟩ := exists_of_nextKey_first hnext
        obtain ⟨others, hstart, hothers⟩ := hvalue.member hkey hread htail hleft hgap
        refine ⟨_, ?_, .members hothers⟩
        rw [hinput, hstart]
        simp
      · cases h

/-- One level of `derives_of_readValue`; the levels inside are a hypothesis. -/
theorem sound_of_inner (hinner : ∀ d, depth = d + 1 → Sound d) : Sound depth := by
  intro input rest j h hrest
  obtain ⟨gap, hgap, hinput⟩ := exists_skipSpace input
  rw [readValue.eq_def] at h
  -- what stands after the space is the text of the value
  suffices htext : ∃ text, skipSpace input = text.map .char ++ rest ∧ Allowed (kindOf j) depth text by
    obtain ⟨text, hskip, htext⟩ := htext
    exact ⟨gap, text, hgap, by rw [← hskip, ← hinput], htext⟩
  split at h
  · cases h
  · rename_i hskip
    obtain ⟨left, hword, h⟩ := exists_of_bind_eq_ok h
    cases h
    exact ⟨_, by rw [hskip, eq_of_readIdentifier hword]; rfl, .null⟩
  · rename_i hskip
    obtain ⟨left, hword, h⟩ := exists_of_bind_eq_ok h
    cases h
    exact ⟨_, by rw [hskip, eq_of_readIdentifier hword]; rfl, .true⟩
  · rename_i hskip
    obtain ⟨left, hword, h⟩ := exists_of_bind_eq_ok h
    cases h
    exact ⟨_, by rw [hskip, eq_of_readIdentifier hword]; rfl, .false⟩
  · rename_i hskip
    obtain ⟨⟨s, left⟩, hstring, h⟩ := exists_of_bind_eq_ok h
    cases h
    obtain ⟨body, hbody, hstart⟩ := isPaired_of_readString hstring
    exact ⟨_, by rw [hskip, hstart]; simp, .string hbody⟩
  · rename_i hskip
    rw [hskip]
    cases depth with
    | zero => cases h
    | succ depth =>
      obtain ⟨⟨items, left⟩, hitems, h⟩ := exists_of_bind_eq_ok h
      cases h
      obtain ⟨text, htext, hlist⟩ := allowed_of_readList (hinner depth rfl) hitems
      exact ⟨text, htext, .list hlist⟩
  · rename_i hskip
    rw [hskip]
    cases depth with
    | zero => cases h
    | succ depth =>
      obtain ⟨⟨members, left⟩, hmembers, h⟩ := exists_of_bind_eq_ok h
      cases h
      exact allowed_of_readMembers (hinner depth rfl) hmembers
  · rename_i hskip
    rw [hskip]
    split at h
    · obtain ⟨⟨n, left⟩, hnumber, h⟩ := exists_of_bind_eq_ok h
      cases h
      obtain ⟨text, htext, hinput⟩ := isNumeral_of_readNumber hnumber
      exact ⟨text, hinput, .number htext (inRange_of_readNumber htext hrest (hinput ▸ hnumber))⟩
    · cases h

theorem derives_of_readValue (depth : Nat) : Sound depth := by
  induction depth with
  | zero => exact sound_of_inner fun d hd => absurd hd (Nat.succ_ne_zero d).symm
  | succ depth ih =>
    refine sound_of_inner fun d hd => ?_
    cases hd
    exact ih

end

/-! ### What can be read -/

/-- What stands before an item, unless it is the first one. -/
def lead (first : Bool) : List Char := if first then [] else [',']

/-- What the readers do before a text of a kind. -/
def Accepted (depth : Nat) (text : List Char) : Kind → Prop
  | .value => Starts text ∧ ∀ rest, Ends rest → ∃ j, readValue depth (text.map .char ++ rest) = .ok (j, rest)
  | .list => Starts text ∧ ∀ rest, ∃ items, readValue depth (text.map .char ++ rest) = .ok (.array items, rest)
  | .object => Starts text ∧ ∀ rest, ∃ members, readValue depth (text.map .char ++ rest) = .ok (.object members, rest)
  | .element => ∃ gap body, IsSpace gap ∧ text = gap ++ body ∧ Starts body ∧ ∀ rest, Ends rest →
      ∃ j back, IsSpace back ∧ readValue depth (body.map .char ++ rest) = .ok (j, back.map .char ++ rest)
  | .elements => ∀ first fuel found rest, text.length + 1 < fuel → ∃ items,
      listItems (readValue depth) fuel first found ((lead first ++ text).map .char ++ .char ']' :: rest) =
        .ok (items, rest)
  | .member => ∃ gap body, IsSpace gap ∧ text = gap ++ '"' :: body ∧ ∀ members rest, Ends rest →
      ∃ key start next back, IsSpace back ∧ readString (body.map .char ++ rest) = .ok (key, start) ∧
        putMember depth members key start = .ok (next, back.map .char ++ rest)
  | .members => ∀ first fuel members rest, text.length + 1 < fuel → ∃ last,
      foldMembers (putMember depth) fuel first members ((lead first ++ text).map .char ++ .char '}' :: rest) =
        .ok (last, rest)

section
variable {depth : Nat} {text : List Char}

theorem nextItem_gap {gap : List Char} (hgap : IsSpace gap) (first : Bool) (input : List Symbol) :
    nextItem first (gap.map .char ++ input) = nextItem first input := by
  rw [nextItem, nextItem, skipSpace_append hgap.isSpace_map]

theorem nextKey_gap {gap : List Char} (hgap : IsSpace gap) (first : Bool) (input : List Symbol) :
    nextKey first (gap.map .char ++ input) = nextKey first input := by
  rw [nextKey, nextKey, skipSpace_append hgap.isSpace_map]

theorem listItems_gap {gap : List Char} (hgap : IsSpace gap) (item : Reader Json) (fuel : Nat) (first : Bool)
    (found : List Json) (input : List Symbol) :
    listItems item (fuel + 1) first found (gap.map .char ++ input) = listItems item (fuel + 1) first found input := by
  rw [listItems, listItems, nextItem_gap hgap]

theorem foldMembers_gap {gap : List Char} (hgap : IsSpace gap) {σ : Type} (member : σ → String → Reader σ) (fuel : Nat)
    (first : Bool) (gathered : σ) (input : List Symbol) :
    foldMembers member (fuel + 1) first gathered (gap.map .char ++ input) =
      foldMembers member (fuel + 1) first gathered input := by
  rw [foldMembers, foldMembers, nextKey_gap hgap]

theorem readValue_gap {gap : List Char} (hgap : IsSpace gap) (input : List Symbol) :
    readValue depth (gap.map .char ++ input) = readValue depth input := by
  rw [← readValue_skipSpace, skipSpace_append hgap.isSpace_map, readValue_skipSpace]

theorem starts_append (h : Starts text) (back : List Char) : Starts (text ++ back) := by
  obtain ⟨c, cs, rfl, hspace, hclose⟩ := h
  exact ⟨c, cs ++ back, rfl, hspace, hclose⟩

theorem nextItem_lead {gap : List Char} (hgap : IsSpace gap) (hstart : Starts text) (first : Bool) (rest : List Symbol) :
    nextItem first ((lead first ++ (gap ++ text)).map .char ++ rest) = .ok (true, text.map .char ++ rest) := by
  have hspace := hgap.isSpace_map
  cases first with
  | true =>
    have h := nextItem_first hstart hspace rest
    simpa [lead] using h
  | false =>
    have h := nextItem_later hstart hspace rest
    simpa [lead] using h

theorem nextKey_lead {gap : List Char} (hgap : IsSpace gap) (first : Bool) (rest : List Symbol) :
    nextKey first ((lead first ++ (gap ++ '"' :: text)).map .char ++ rest) = .ok (true, text.map .char ++ rest) := by
  have hspace := hgap.isSpace_map
  cases first with
  | true =>
    have h := nextKey_first hspace (text.map .char ++ rest)
    simpa [lead] using h
  | false =>
    have h := nextKey_later hspace (text.map .char ++ rest)
    simpa [lead] using h

/-- Reading an element is one round of the loop over a list. -/
theorem exists_listItems (h : Accepted depth text .element) {rest : List Symbol} (hrest : Ends rest) :
    ∃ item back, IsSpace back ∧ ∀ first fuel found,
      listItems (readValue depth) (fuel + 1) first found ((lead first ++ text).map .char ++ rest) =
        listItems (readValue depth) fuel false (item :: found) (back.map .char ++ rest) := by
  obtain ⟨gap, body, hgap, rfl, hstart, hread⟩ := h
  obtain ⟨j, back, hback, hvalue⟩ := hread rest hrest
  refine ⟨j, back, hback, fun first fuel found => ?_⟩
  rw [listItems, nextItem_lead hgap hstart]
  simp only [hvalue]

/-- Reading a member is one round of the loop over an object. -/
theorem exists_foldMembers (h : Accepted depth text .member) {rest : List Symbol} (hrest : Ends rest)
    (members : List (String × Json)) :
    ∃ next back, IsSpace back ∧ ∀ first fuel,
      foldMembers (putMember depth) (fuel + 1) first members ((lead first ++ text).map .char ++ rest) =
        foldMembers (putMember depth) fuel false next (back.map .char ++ rest) := by
  obtain ⟨gap, body, hgap, rfl, hread⟩ := h
  obtain ⟨key, start, next, back, hback, hkey, hput⟩ := hread members rest hrest
  refine ⟨next, back, hback, fun first fuel => ?_⟩
  rw [foldMembers, nextKey_lead hgap]
  simp only [hkey, hput]

theorem accepted_lastElement (h : Accepted depth text .element) : Accepted depth text .elements := by
  intro first fuel found rest hfuel
  obtain ⟨fuel, rfl⟩ : ∃ n, fuel = n + 2 := ⟨fuel - 2, by omega⟩
  obtain ⟨item, back, hback, hstep⟩ := exists_listItems h (ends_cons.2 rfl : Ends (.char ']' :: rest))
  exact ⟨_, by rw [hstep, listItems_close (nextItem_close _ hback.isSpace_map false rest)]⟩

theorem accepted_nextElement {others : List Char} (h : Accepted depth text .element)
    (hothers : Accepted depth others .elements) : Accepted depth (text ++ ',' :: others) .elements := by
  intro first fuel found rest hfuel
  rw [List.length_append, List.length_cons] at hfuel
  obtain ⟨fuel, rfl⟩ : ∃ n, fuel = n + 2 := ⟨fuel - 2, by omega⟩
  have hends : Ends ((lead false ++ others).map .char ++ .char ']' :: rest) := ends_cons.2 rfl
  obtain ⟨item, back, hback, hstep⟩ := exists_listItems h hends
  obtain ⟨items, hitems⟩ := hothers false (fuel + 1) (item :: found) rest (by omega)
  refine ⟨items, ?_⟩
  have hinput : (lead first ++ (text ++ ',' :: others)).map Symbol.char ++ .char ']' :: rest =
      (lead first ++ text).map .char ++ ((lead false ++ others).map .char ++ .char ']' :: rest) := by simp [lead]
  rw [hinput, hstep, listItems_gap hback, hitems]

theorem accepted_lastMember (h : Accepted depth text .member) : Accepted depth text .members := by
  intro first fuel members rest hfuel
  obtain ⟨fuel, rfl⟩ : ∃ n, fuel = n + 2 := ⟨fuel - 2, by omega⟩
  obtain ⟨next, back, hback, hstep⟩ := exists_foldMembers h (ends_cons.2 rfl : Ends (.char '}' :: rest)) members
  exact ⟨_, by rw [hstep, foldMembers_close (nextKey_close _ hback.isSpace_map false rest)]⟩

theorem accepted_nextMember {others : List Char} (h : Accepted depth text .member)
    (hothers : Accepted depth others .members) : Accepted depth (text ++ ',' :: others) .members := by
  intro first fuel members rest hfuel
  rw [List.length_append, List.length_cons] at hfuel
  obtain ⟨fuel, rfl⟩ : ∃ n, fuel = n + 2 := ⟨fuel - 2, by omega⟩
  have hends : Ends ((lead false ++ others).map .char ++ .char '}' :: rest) := ends_cons.2 rfl
  obtain ⟨next, back, hback, hstep⟩ := exists_foldMembers h hends members
  obtain ⟨last, hlast⟩ := hothers false (fuel + 1) next rest (by omega)
  refine ⟨last, ?_⟩
  have hinput : (lead first ++ (text ++ ',' :: others)).map Symbol.char ++ .char '}' :: rest =
      (lead first ++ text).map .char ++ ((lead false ++ others).map .char ++ .char '}' :: rest) := by simp [lead]
  rw [hinput, hstep, foldMembers_gap hback, hlast]

theorem accepted_number (htext : IsNumeral text) (hrange : Limits.reader.inRange text) : Accepted depth text .value := by
  obtain ⟨n, hread⟩ := exists_readNumber_of_inRange htext hrange
  obtain ⟨c, cs, rfl, hc⟩ : ∃ c cs, text = c :: cs ∧ startsNumber c = true := by
    obtain ⟨sign, hsign, whole, fraction, power, rfl, ⟨⟨hdigits, hne⟩, -⟩, -, -⟩ := htext
    simp only [List.mem_cons, List.not_mem_nil, or_false] at hsign
    obtain ⟨c, cs, rfl⟩ := List.exists_cons_of_ne_nil hne
    rcases hsign with rfl | rfl
    · exact ⟨c, _, rfl, by simp [startsNumber, hdigits.head]⟩
    · exact ⟨'-', _, rfl, rfl⟩
  refine ⟨starts_of_startsNumber hc cs, fun rest hrest => ⟨.number n, ?_⟩⟩
  have hnumber := hread rest hrest
  rw [List.map_cons, List.cons_append] at hnumber ⊢
  rw [readValue_number hc, hnumber]
  rfl

theorem accepted_string {body : List Char} (hbody : IsPaired body) :
    Accepted depth ('"' :: (body ++ ['"'])) .value := by
  refine ⟨⟨'"', _, rfl, rfl, by decide⟩, fun rest _ => ?_⟩
  obtain ⟨s, hs⟩ := exists_readString hbody rest
  have hinput : ('"' :: (body ++ ['"'])).map Symbol.char ++ rest =
      .char '"' :: (body.map .char ++ .char '"' :: rest) := by simp
  refine ⟨.string s, ?_⟩
  rw [hinput, readValue_string, hs]
  rfl

theorem accepted_array {inner : List Char} (h : ∀ rest, ∃ items,
      readList (readValue depth) ((inner ++ [']']).map .char ++ rest) = .ok (items, rest)) :
    Accepted (depth + 1) ('[' :: (inner ++ [']'])) .list := by
  refine ⟨⟨'[', _, rfl, rfl, by decide⟩, fun rest => ?_⟩
  obtain ⟨items, hitems⟩ := h rest
  refine ⟨items, ?_⟩
  rw [List.map_cons, List.cons_append, readValue_array, hitems]
  rfl

theorem accepted_object {inner : List Char} (h : ∀ rest, ∃ members,
      readMembers (putMember depth) [] ((inner ++ ['}']).map .char ++ rest) = .ok (members, rest)) :
    Accepted (depth + 1) ('{' :: (inner ++ ['}'])) .object := by
  refine ⟨⟨'{', _, rfl, rfl, by decide⟩, fun rest => ?_⟩
  obtain ⟨members, hmembers⟩ := h rest
  refine ⟨members, ?_⟩
  rw [List.map_cons, List.cons_append, readValue_object, hmembers]
  rfl

theorem readColon_gap {gap : List Char} (hgap : IsSpace gap) (rest : List Symbol) :
    readColon (gap.map .char ++ .char ':' :: rest) = .ok rest := by
  rw [readColon, skipSpace_append hgap.isSpace_map, skipSpace_cons rfl]
  rfl

theorem accepted_member {front key gap : List Char} (hfront : IsSpace front) (hkey : IsPaired key) (hgap : IsSpace gap)
    (h : Accepted depth text .element) :
    Accepted depth (front ++ '"' :: (key ++ '"' :: (gap ++ ':' :: text))) .member := by
  obtain ⟨gap', body, hgap', rfl, -, hread⟩ := h
  refine ⟨front, _, hfront, rfl, fun members rest hrest => ?_⟩
  obtain ⟨j, back, hback, hvalue⟩ := hread rest hrest
  obtain ⟨name, hname⟩ := exists_readString hkey ((gap ++ ':' :: (gap' ++ body)).map .char ++ rest)
  refine ⟨name, (gap ++ ':' :: (gap' ++ body)).map .char ++ rest, Entries.put members name j, back, hback, ?_, ?_⟩
  · rw [← hname]
    simp
  · have hinput : (gap ++ ':' :: (gap' ++ body)).map Symbol.char ++ rest =
        gap.map .char ++ .char ':' :: (gap'.map .char ++ (body.map .char ++ rest)) := by simp
    rw [putMember, hinput, readColon_gap hgap]
    simp [bind, Except.bind, readValue_gap hgap', hvalue]
    rfl

/-- Every rule of the grammar keeps what the readers do. -/
theorem accepted_of_derives {kind : Kind} (h : Allowed kind depth text) : Accepted depth text kind := by
  induction h with
  | null => exact ⟨⟨'n', _, rfl, rfl, by decide⟩, fun rest _ => ⟨.null, by rw [readValue]; rfl⟩⟩
  | true => exact ⟨⟨'t', _, rfl, rfl, by decide⟩, fun rest _ => ⟨.bool true, by rw [readValue]; rfl⟩⟩
  | false => exact ⟨⟨'f', _, rfl, rfl, by decide⟩, fun rest _ => ⟨.bool false, by rw [readValue]; rfl⟩⟩
  | number htext hrange => exact accepted_number htext hrange
  | string hbody => exact accepted_string hbody
  | list _ ih =>
    obtain ⟨hstart, hread⟩ := ih
    exact ⟨hstart, fun rest _ => ⟨_, (hread rest).choose_spec⟩⟩
  | object _ ih =>
    obtain ⟨hstart, hread⟩ := ih
    exact ⟨hstart, fun rest _ => ⟨_, (hread rest).choose_spec⟩⟩
  | @emptyList depth gap hgap =>
    refine accepted_array fun rest => ⟨[], ?_⟩
    rw [List.map_append, List.append_assoc, readList]
    exact listItems_close (nextItem_close _ hgap.isSpace_map true rest)
  | @elements depth text _ ih =>
    refine accepted_array fun rest => ?_
    have hinput : (text ++ [']']).map Symbol.char ++ rest = (lead true ++ text).map .char ++ .char ']' :: rest := by
      simp [lead]
    rw [hinput, readList]
    exact ih true _ [] rest (by simp [lead])
  | @emptyObject depth gap hgap =>
    refine accepted_object fun rest => ⟨[], ?_⟩
    rw [List.map_append, List.append_assoc, readMembers]
    exact foldMembers_close (nextKey_close _ hgap.isSpace_map true rest)
  | @members depth text _ ih =>
    refine accepted_object fun rest => ?_
    have hinput : (text ++ ['}']).map Symbol.char ++ rest = (lead true ++ text).map .char ++ .char '}' :: rest := by
      simp [lead]
    rw [hinput, readMembers]
    exact ih true _ [] rest (by simp [lead])
  | @element depth front text back hfront _ hback ih =>
    obtain ⟨hstart, hread⟩ := ih
    refine ⟨front, text ++ back, hfront, rfl, starts_append hstart back, fun rest hrest => ?_⟩
    obtain ⟨j, hj⟩ := hread (back.map .char ++ rest) (ends_append hback.isSpace_map hrest)
    refine ⟨j, back, hback, ?_⟩
    rw [List.map_append, List.append_assoc, hj]
  | lastElement _ ih => exact accepted_lastElement ih
  | nextElement _ _ ih ih' => exact accepted_nextElement ih ih'
  | member hfront hkey hgap _ ih => exact accepted_member hfront hkey hgap ih
  | lastMember _ ih => exact accepted_lastMember ih
  | nextMember _ _ ih ih' => exact accepted_nextMember ih ih'

end

/-! ### Whole texts -/

theorem parse_eq_ok {input : List Symbol} {j : Json} :
    parse input = .ok j ↔ ∃ back, IsSpace back ∧ readValue nestingLimit input = .ok (j, back.map .char) := by
  rw [parse, readAll]
  constructor
  · intro h
    obtain ⟨⟨j', rest⟩, hread, h⟩ := exists_of_bind_eq_ok h
    dsimp only at h
    split at h
    · rename_i hskip
      cases h
      obtain ⟨back, hback, hrest⟩ := exists_skipSpace rest
      rw [hskip, List.append_nil] at hrest
      exact ⟨back, hback, hrest ▸ hread⟩
    · cases h
  · rintro ⟨back, hback, hread⟩
    have hskip : skipSpace (back.map .char) = [] := List.dropWhile_eq_nil_iff.2 hback.isSpace_map
    rw [hread]
    simp [bind, Except.bind, hskip]

section
variable {text : List Char}

theorem exists_of_parse {j : Json} (h : parse (text.map .char) = .ok j) :
    ∃ front body back, text = front ++ (body ++ back) ∧ IsSpace front ∧ Allowed (kindOf j) nestingLimit body ∧
      IsSpace back := by
  obtain ⟨back, hback, hread⟩ := parse_eq_ok.1 h
  have hends : Ends (back.map .char) := by
    have := ends_append hback.isSpace_map ends_nil
    rwa [List.append_nil] at this
  obtain ⟨front, body, hfront, htext, hbody⟩ := derives_of_readValue _ hread hends
  refine ⟨front, body, back, ?_, hfront, hbody, hback⟩
  rw [← List.map_append, ← List.map_append] at htext
  exact List.map_injective_iff.2 (fun _ _ => Symbol.char.inj) htext

/-- A text is read exactly if it is JSON within the limits. -/
theorem parse_iff : (∃ j, parse (text.map .char) = .ok j) ↔ Allowed .element nestingLimit text := by
  constructor
  · rintro ⟨j, h⟩
    obtain ⟨front, body, back, rfl, hfront, hbody, hback⟩ := exists_of_parse h
    exact .element hfront hbody.value hback
  · intro h
    obtain ⟨gap, body, hgap, rfl, -, hread⟩ := accepted_of_derives h
    obtain ⟨j, back, hback, hj⟩ := hread [] ends_nil
    refine ⟨j, parse_eq_ok.2 ⟨back, hback, ?_⟩⟩
    rw [List.append_nil, List.append_nil] at hj
    rw [List.map_append, readValue_gap hgap, hj]

/-- A text is read as an object exactly if it is one within the limits. -/
theorem parse_object_iff : (∃ members, parse (text.map .char) = .ok (.object members)) ↔
    IsObject Limits.reader nestingLimit text := by
  constructor
  · rintro ⟨members, h⟩
    exact exists_of_parse h
  · rintro ⟨front, body, back, rfl, hfront, hbody, hback⟩
    obtain ⟨-, hread⟩ := accepted_of_derives hbody
    obtain ⟨members, hmembers⟩ := hread (back.map .char)
    refine ⟨members, parse_eq_ok.2 ⟨back, hback, ?_⟩⟩
    rw [List.map_append, List.map_append, readValue_gap hfront, hmembers]

end

end Unnest.Json
