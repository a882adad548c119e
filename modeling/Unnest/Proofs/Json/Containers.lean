import Unnest.Json.Reader
import Unnest.Proofs.Json.Literal

/-!
# Written lists and objects

`Reads reader text answer` says that a reader which stands before a written text, perhaps with space in
between, gives `answer` and leaves what follows; no answer means that it fails. A written list is read by
reading its items (`readList_render`), a written object by folding its members (`readMembers_render`), for
every reader of an item or a member. What a list or an object has been read into consists of what its
items and members were read into (`forall_of_readList`, `invariant_of_readMembers`).
-/

namespace Unnest.Json
open Text

@[simp] theorem toOption_bind {ε α β : Type} (outcome : Except ε α) (next : α → Except ε β) :
    (outcome >>= next).toOption = outcome.toOption.bind fun a => (next a).toOption := by
  cases outcome <;> rfl

@[simp] theorem toOption_ok {ε α : Type} (a : α) : (Except.ok a : Except ε α).toOption = some a := rfl

@[simp] theorem toOption_error {ε α : Type} (e : ε) : (Except.error e : Except ε α).toOption = none := rfl

theorem toOption_eq_some {ε α : Type} {outcome : Except ε α} {a : α} :
    outcome.toOption = some a ↔ outcome = .ok a := by
  cases outcome <;> simp

theorem exists_of_bind_eq_ok {ε α β : Type} {outcome : Except ε α} {next : α → Except ε β} {b : β}
    (h : outcome >>= next = .ok b) : ∃ a, outcome = .ok a ∧ next a = .ok b := by
  cases outcome with
  | error e => cases h
  | ok a => exact ⟨a, rfl, h⟩

/-! ### Space and ends -/

/-- Whether a symbol would be part of a number that stands before it. -/
def continuesNumber (s : Symbol) : Bool :=
  isDigit s || s ∈ [.char '.', .char 'e', .char 'E', .char '+', .char '-']

/-- What may follow a number without becoming part of it. -/
def Ends (rest : List Symbol) : Prop := ∀ s ∈ rest.head?, continuesNumber s = false

@[simp] theorem ends_nil : Ends [] := nofun

@[simp] theorem ends_cons {s : Symbol} {rest : List Symbol} :
    Ends (s :: rest) ↔ continuesNumber s = false := by
  simp [Ends]

theorem skipSpace_append {gap : List Symbol} (hgap : ∀ s ∈ gap, isSpace s = true)
    (input : List Symbol) : skipSpace (gap ++ input) = skipSpace input :=
  List.dropWhile_append_of_pos hgap

theorem skipSpace_cons {s : Symbol} (hs : isSpace s = false) (rest : List Symbol) :
    skipSpace (s :: rest) = s :: rest :=
  List.dropWhile_cons_of_neg (by simp [hs])

theorem isSpace_lineBreak (depth : Option Nat) : ∀ s ∈ (lineBreak depth).map .char, isSpace s = true := by
  intro s hs
  cases depth with
  | none => cases hs
  | some depth =>
    simp only [lineBreak, List.map_cons, List.map_replicate, List.mem_cons, List.mem_replicate] at hs
    rcases hs with rfl | ⟨-, rfl⟩ <;> rfl

theorem not_continues_of_isSpace {s : Symbol} (hs : isSpace s = true) : continuesNumber s = false := by
  simp only [isSpace, Bool.or_eq_true, decide_eq_true_eq] at hs
  rcases hs with ((rfl | rfl) | rfl) | rfl <;> rfl

theorem ends_append {gap rest : List Symbol} (hgap : ∀ s ∈ gap, isSpace s = true) (hrest : Ends rest) :
    Ends (gap ++ rest) := by
  cases gap with
  | nil => exact hrest
  | cons s gap => exact ends_cons.2 (not_continues_of_isSpace (hgap s List.mem_cons_self))

theorem isSpace_tail_colon (depth : Option Nat) : ∀ s ∈ (colon depth).tail.map .char, isSpace s = true := by
  cases depth with
  | none => exact nofun
  | some depth => exact List.forall_mem_singleton.2 rfl

@[simp] theorem colon_map (depth : Option Nat) (f : Nat → Nat) : colon (depth.map f) = colon depth := by
  cases depth <;> rfl

theorem readColon_colon (depth : Option Nat) (input : List Symbol) :
    readColon ((colon depth).map .char ++ input) = .ok ((colon depth).tail.map .char ++ input) := by
  cases depth <;> rfl

/-! ### Readers of written texts -/

/-- What a reader answers before a text; no answer is a failure. -/
def Reads {α : Type} (reader : Reader α) (text : List Char) (answer : Option α) : Prop :=
  ∀ gap rest, (∀ s ∈ gap, isSpace s = true) → Ends rest →
    (reader (gap ++ (text.map .char ++ rest))).toOption = answer.map (·, rest)

/-- A text that starts with something to read. -/
def Starts (text : List Char) : Prop :=
  ∃ c rest, text = c :: rest ∧ isSpace (.char c) = false ∧ c ≠ ']'

section
variable {α : Type} {reader : Reader α} {text : List Char} {answer : Option α}

theorem Reads.directly (h : Reads reader text answer) {rest : List Symbol} (hrest : Ends rest) :
    (reader (text.map .char ++ rest)).toOption = answer.map (·, rest) :=
  h [] rest nofun hrest

theorem Reads.map (h : Reads reader text answer) {β : Type} (f : α → β) :
    Reads (fun input => do
      let (a, rest) ← reader input
      return (f a, rest)) text (answer.map f) := by
  intro gap rest hgap hrest
  rw [toOption_bind, h gap rest hgap hrest]
  cases answer <;> rfl

theorem Reads.after_colon (h : Reads reader text answer) (depth : Option Nat) {rest : List Symbol}
    (hrest : Ends rest) {β : Type} (next : α × List Symbol → Except Failure β) :
    (readColon ((colon depth ++ text).map .char ++ rest) >>= fun input => reader input >>= next).toOption
      = answer.bind fun a => (next (a, rest)).toOption := by
  rw [List.map_append, List.append_assoc, readColon_colon, toOption_bind, toOption_ok,
    Option.bind_some, toOption_bind, h _ _ (isSpace_tail_colon depth) hrest, Option.bind_map]
  rfl

end

/-! ### Lists -/

theorem nextItem_first {text : List Char} (h : Starts text) {gap : List Symbol}
    (hgap : ∀ s ∈ gap, isSpace s = true) (rest : List Symbol) :
    nextItem true (gap ++ (text.map .char ++ rest)) = .ok (true, text.map .char ++ rest) := by
  obtain ⟨c, cs, rfl, hspace, hclose⟩ := h
  rw [nextItem, skipSpace_append hgap, List.map_cons, List.cons_append, skipSpace_cons hspace]
  split <;> simp_all

theorem nextItem_later {text : List Char} (h : Starts text) {gap : List Symbol}
    (hgap : ∀ s ∈ gap, isSpace s = true) (rest : List Symbol) :
    nextItem false (.char ',' :: (gap ++ (text.map .char ++ rest))) = .ok (true, text.map .char ++ rest) := by
  obtain ⟨c, cs, rfl, hspace, hclose⟩ := h
  rw [nextItem, skipSpace_cons rfl]
  simp only [Bool.false_eq_true, if_false]
  rw [skipSpace_append hgap, List.map_cons, List.cons_append, skipSpace_cons hspace]
  split <;> simp_all

theorem nextItem_close (gap : List Symbol) (hgap : ∀ s ∈ gap, isSpace s = true) (first : Bool)
    (rest : List Symbol) : nextItem first (gap ++ .char ']' :: rest) = .ok (false, rest) := by
  rw [nextItem, skipSpace_append hgap, skipSpace_cons rfl]
  rfl

section
variable {α β : Type} {item : Reader β} {toJson : α → Json} {again : α → Option β}

theorem listItems_item {fuel : Nat} {first : Bool} {found : List β} {input start : List Symbol}
    (hnext : nextItem first input = .ok (true, start)) :
    (listItems item (fuel + 1) first found input).toOption
      = (item start).toOption.bind fun (b, rest) => (listItems item fuel false (b :: found) rest).toOption := by
  rw [listItems, hnext]
  cases hitem : item start <;> simp [hitem]

theorem listItems_close {fuel : Nat} {first : Bool} {found : List β} {input rest : List Symbol}
    (hnext : nextItem first input = .ok (false, rest)) :
    listItems item (fuel + 1) first found input = .ok (found.reverse, rest) := by
  rw [listItems, hnext]

theorem ends_renderItems (depth : Option Nat) (items : List Json) {gap : List Symbol}
    (hgap : ∀ s ∈ gap, isSpace s = true) (rest : List Symbol) :
    Ends ((renderItems depth items).map .char ++ (gap ++ .char ']' :: rest)) := by
  cases items with
  | nil =>
    rw [renderItems, List.map_nil, List.nil_append]
    exact ends_append hgap (ends_cons.2 rfl)
  | cons j items => exact ends_cons.2 rfl

theorem listItems_renderItems {depth : Option Nat} {gap : List Symbol}
    (hgap : ∀ s ∈ gap, isSpace s = true) (rest : List Symbol) (as : List α)
    (hstart : ∀ a ∈ as, Starts (render depth (toJson a)))
    (hread : ∀ a ∈ as, Reads item (render depth (toJson a)) (again a)) (fuel : Nat) (found : List β)
    (hfuel : as.length < fuel) :
    (listItems item fuel false found
        ((renderItems depth (as.map toJson)).map .char ++ (gap ++ .char ']' :: rest))).toOption
      = (as.mapM again).map fun bs => (found.reverse ++ bs, rest) := by
  -- on the items; the fuel only has to outlast them
  induction as generalizing fuel found with
  | nil =>
    obtain ⟨fuel, rfl⟩ : ∃ n, fuel = n + 1 := ⟨fuel - 1, by simp at hfuel; omega⟩
    rw [List.map_nil, renderItems, List.map_nil, List.nil_append,
      listItems_close (nextItem_close gap hgap false rest)]
    simp
  | cons a as ih =>
    obtain ⟨fuel, rfl⟩ : ∃ n, fuel = n + 1 := ⟨fuel - 1, by simp at hfuel; omega⟩
    have hnext := nextItem_later (hstart a List.mem_cons_self) (isSpace_lineBreak depth)
      ((renderItems depth (as.map toJson)).map .char ++ (gap ++ .char ']' :: rest))
    have hitem := (hread a List.mem_cons_self).directly (ends_renderItems depth (as.map toJson) hgap rest)
    rw [List.map_cons, renderItems]
    simp only [List.cons_append, List.map_cons, List.map_append, List.append_assoc]
    rw [listItems_item hnext, hitem, List.mapM_cons]
    cases again a with
    | none => rfl
    | some b =>
      have hrest := ih (fun a ha => hstart a (List.mem_cons_of_mem _ ha))
        (fun a ha => hread a (List.mem_cons_of_mem _ ha)) fuel (b :: found)
        (by simp at hfuel; omega)
      simp [hrest]
      cases as.mapM again <;> simp

theorem length_le_renderItems (depth : Option Nat) (items : List Json) :
    items.length ≤ (renderItems depth items).length := by
  induction items with
  | nil => exact Nat.le_refl 0
  | cons j items ih =>
    simp only [renderItems, List.length_append, List.length_cons]
    omega

variable (toJson again) in
/-- Reading a written list after its opening bracket is reading its items. -/
theorem readList_render {depth : Option Nat} {as : List α}
    (hstart : ∀ a ∈ as, Starts (render (depth.map (· + 1)) (toJson a)))
    (hread : ∀ a ∈ as, Reads item (render (depth.map (· + 1)) (toJson a)) (again a))
    {body : List Char} (hbody : render depth (.array (as.map toJson)) = '[' :: body)
    (rest : List Symbol) :
    (readList item (body.map .char ++ rest)).toOption = (as.mapM again).map (·, rest) := by
  cases as with
  | nil =>
    obtain rfl : [']'] = body := by simpa [render] using hbody
    rw [readList, List.map_singleton, List.singleton_append]
    exact congrArg Except.toOption (listItems_close (nextItem_close [] nofun true rest))
  | cons a as =>
    have htext : body.map .char ++ rest = (lineBreak (depth.map (· + 1))).map .char
        ++ ((render (depth.map (· + 1)) (toJson a)).map .char
          ++ ((renderItems (depth.map (· + 1)) (as.map toJson)).map .char
            ++ ((lineBreak depth).map .char ++ .char ']' :: rest))) := by
      rw [List.map_cons, render] at hbody
      rw [← (List.cons.inj hbody).2]
      simp
    have hnext := nextItem_first (hstart a List.mem_cons_self)
      (isSpace_lineBreak (depth.map (· + 1)))
      ((renderItems (depth.map (· + 1)) (as.map toJson)).map .char
        ++ ((lineBreak depth).map .char ++ .char ']' :: rest))
    have hitem := (hread a List.mem_cons_self).directly
      (ends_renderItems (depth.map (· + 1)) (as.map toJson) (isSpace_lineBreak depth) rest)
    rw [readList, htext, listItems_item hnext, hitem, List.mapM_cons]
    cases again a with
    | none => rfl
    | some b =>
      have hlength := length_le_renderItems (depth.map (· + 1)) (as.map toJson)
      rw [List.length_map] at hlength
      refine (listItems_renderItems (isSpace_lineBreak depth) rest as
        (fun a ha => hstart a (List.mem_cons_of_mem _ ha))
        (fun a ha => hread a (List.mem_cons_of_mem _ ha)) _ [b] ?_).trans ?_
      · simp only [List.length_append, List.length_map, List.length_cons]
        omega
      · cases as.mapM again <;> rfl

end

/-! ### Objects -/

theorem nextKey_first {gap : List Symbol} (hgap : ∀ s ∈ gap, isSpace s = true) (rest : List Symbol) :
    nextKey true (gap ++ .char '"' :: rest) = .ok (true, rest) := by
  rw [nextKey, skipSpace_append hgap, skipSpace_cons rfl]
  rfl

theorem nextKey_later {gap : List Symbol} (hgap : ∀ s ∈ gap, isSpace s = true) (rest : List Symbol) :
    nextKey false (.char ',' :: (gap ++ .char '"' :: rest)) = .ok (true, rest) := by
  rw [nextKey, skipSpace_cons rfl]
  simp only [Bool.false_eq_true, if_false]
  rw [skipSpace_append hgap, skipSpace_cons rfl]
  rfl

theorem nextKey_close (gap : List Symbol) (hgap : ∀ s ∈ gap, isSpace s = true) (first : Bool)
    (rest : List Symbol) : nextKey first (gap ++ .char '}' :: rest) = .ok (false, rest) := by
  rw [nextKey, skipSpace_append hgap, skipSpace_cons rfl]
  rfl

section
variable {σ : Type} {member : σ → String → Reader σ} {again : σ → String × Json → Option σ}

theorem foldMembers_member {fuel : Nat} {first : Bool} {gathered : σ} {input rest : List Symbol} {key : String}
    (hnext : nextKey first input
      = .ok (true, (key.toList.flatMap escapeChar ++ ['"']).map .char ++ rest)) :
    (foldMembers member (fuel + 1) first gathered input).toOption
      = (member gathered key rest).toOption.bind fun (gathered, rest) =>
          (foldMembers member fuel false gathered rest).toOption := by
  rw [foldMembers, hnext]
  cases hmember : member gathered key rest <;> simp only [readString_quote, hmember] <;> rfl

theorem foldMembers_close {fuel : Nat} {first : Bool} {gathered : σ} {input rest : List Symbol}
    (hnext : nextKey first input = .ok (false, rest)) :
    foldMembers member (fuel + 1) first gathered input = .ok (gathered, rest) := by
  rw [foldMembers, hnext]

theorem ends_renderMembers (depth : Option Nat) (members : List (String × Json)) {gap : List Symbol}
    (hgap : ∀ s ∈ gap, isSpace s = true) (rest : List Symbol) :
    Ends ((renderMembers depth members).map .char ++ (gap ++ .char '}' :: rest)) := by
  cases members with
  | nil =>
    rw [renderMembers, List.map_nil, List.nil_append]
    exact ends_append hgap (ends_cons.2 rfl)
  | cons m members => exact ends_cons.2 rfl

theorem foldMembers_renderMembers {depth : Option Nat} {gap : List Symbol}
    (hgap : ∀ s ∈ gap, isSpace s = true) (rest : List Symbol) (members : List (String × Json))
    (hread : ∀ m ∈ members, ∀ gathered rest, Ends rest →
      (member gathered m.1 ((colon depth ++ render depth m.2).map .char ++ rest)).toOption
        = (again gathered m).map (·, rest))
    (fuel : Nat) (gathered : σ) (hfuel : members.length < fuel) :
    (foldMembers member fuel false gathered
        ((renderMembers depth members).map .char ++ (gap ++ .char '}' :: rest))).toOption
      = (members.foldlM again gathered).map (·, rest) := by
  induction members generalizing fuel gathered with
  | nil =>
    obtain ⟨fuel, rfl⟩ : ∃ n, fuel = n + 1 := ⟨fuel - 1, by simp at hfuel; omega⟩
    rw [renderMembers, List.map_nil, List.nil_append, foldMembers_close (nextKey_close gap hgap false rest)]
    rfl
  | cons m members ih =>
    obtain ⟨fuel, rfl⟩ : ∃ n, fuel = n + 1 := ⟨fuel - 1, by simp at hfuel; omega⟩
    have hends := ends_renderMembers depth members hgap rest
    have hnext := nextKey_later (isSpace_lineBreak depth)
      ((m.1.toList.flatMap escapeChar ++ ['"']).map .char
        ++ ((colon depth ++ render depth m.2).map .char
          ++ ((renderMembers depth members).map .char ++ (gap ++ .char '}' :: rest))))
    have htext : (renderMembers depth (m :: members)).map .char ++ (gap ++ .char '}' :: rest)
        = .char ',' :: ((lineBreak depth).map .char
          ++ .char '"' :: ((m.1.toList.flatMap escapeChar ++ ['"']).map .char
            ++ ((colon depth ++ render depth m.2).map .char
              ++ ((renderMembers depth members).map .char ++ (gap ++ .char '}' :: rest))))) := by
      simp [renderMembers, quote]
    rw [htext, foldMembers_member hnext, hread m List.mem_cons_self gathered _ hends, List.foldlM_cons]
    cases again gathered m with
    | none => rfl
    | some gathered =>
      exact ih (fun m hm => hread m (List.mem_cons_of_mem _ hm)) fuel gathered
        (by simp at hfuel; omega)

theorem length_le_renderMembers (depth : Option Nat) (members : List (String × Json)) :
    members.length ≤ (renderMembers depth members).length := by
  induction members with
  | nil => exact Nat.le_refl 0
  | cons m members ih =>
    simp only [renderMembers, List.length_append, List.length_cons]
    omega

variable (member again) in
/-- Reading a written object after its opening brace is folding its members. -/
theorem readMembers_render {depth : Option Nat} {members : List (String × Json)}
    (hread : ∀ m ∈ members, ∀ gathered rest, Ends rest →
      (member gathered m.1 ((colon depth ++ render (depth.map (· + 1)) m.2).map .char ++ rest)).toOption
        = (again gathered m).map (·, rest))
    {body : List Char} (hbody : render depth (.object members) = '{' :: body)
    (empty : σ) (rest : List Symbol) :
    (readMembers member empty (body.map .char ++ rest)).toOption
      = (members.foldlM again empty).map (·, rest) := by
  cases members with
  | nil =>
    obtain rfl : ['}'] = body := by simpa [render] using hbody
    rw [readMembers, List.map_singleton, List.singleton_append]
    exact congrArg Except.toOption (foldMembers_close (nextKey_close [] nofun true rest))
  | cons m members =>
    obtain ⟨key, value⟩ := m
    have hends := ends_renderMembers (depth.map (· + 1)) members (isSpace_lineBreak depth) rest
    have hnext := nextKey_first (isSpace_lineBreak (depth.map (· + 1)))
      ((key.toList.flatMap escapeChar ++ ['"']).map .char
        ++ ((colon depth ++ render (depth.map (· + 1)) value).map .char
          ++ ((renderMembers (depth.map (· + 1)) members).map .char
            ++ ((lineBreak depth).map .char ++ .char '}' :: rest))))
    have htext : body.map .char ++ rest = (lineBreak (depth.map (· + 1))).map .char
        ++ .char '"' :: ((key.toList.flatMap escapeChar ++ ['"']).map .char
          ++ ((colon depth ++ render (depth.map (· + 1)) value).map .char
            ++ ((renderMembers (depth.map (· + 1)) members).map .char
              ++ ((lineBreak depth).map .char ++ .char '}' :: rest)))) := by
      rw [render] at hbody
      rw [← (List.cons.inj hbody).2]
      simp [quote]
    have hlength := length_le_renderMembers (depth.map (· + 1)) members
    rw [readMembers, htext, foldMembers_member hnext,
      hread (key, value) List.mem_cons_self empty _ hends, List.foldlM_cons]
    cases again empty (key, value) with
    | none => rfl
    | some gathered =>
      exact foldMembers_renderMembers (isSpace_lineBreak depth) rest members
        (fun m hm gathered rest hrest => by
          rw [colon_map]
          exact hread m (List.mem_cons_of_mem _ hm) gathered rest hrest) _ gathered
        (by simp only [List.length_append, List.length_map, List.length_cons]; omega)

end

/-! ### What containers are read into -/

theorem forall_of_listItems {β : Type} {item : Reader β} {p : β → Prop}
    (hitem : ∀ input b rest, item input = .ok (b, rest) → p b) (fuel : Nat) (first : Bool)
    (found : List β) (input : List Symbol) {items : List β} {rest : List Symbol}
    (hfound : ∀ b ∈ found, p b) (h : listItems item fuel first found input = .ok (items, rest)) :
    ∀ b ∈ items, p b := by
  induction fuel generalizing first found input with
  | zero => cases h
  | succ fuel ih =>
    rw [listItems] at h
    split at h
    · cases h
    · cases h
      exact fun b hb => hfound b (List.mem_reverse.1 hb)
    · rename_i start hnext
      split at h
      · rename_i b left hread
        exact ih _ _ _ (List.forall_mem_cons.2 ⟨hitem _ _ _ hread, hfound⟩) h
      · cases h

theorem forall_of_readList {β : Type} {item : Reader β} {p : β → Prop}
    (hitem : ∀ input b rest, item input = .ok (b, rest) → p b) {input : List Symbol}
    {items : List β} {rest : List Symbol} (h : readList item input = .ok (items, rest)) :
    ∀ b ∈ items, p b :=
  forall_of_listItems hitem _ _ [] _ nofun h

theorem invariant_of_foldMembers {σ : Type} {member : σ → String → Reader σ} {p : σ → Prop}
    (hmember : ∀ gathered key input next rest, p gathered → member gathered key input = .ok (next, rest) → p next)
    (fuel : Nat) (first : Bool) (gathered : σ) (input : List Symbol) {last : σ} {rest : List Symbol}
    (hp : p gathered) (h : foldMembers member fuel first gathered input = .ok (last, rest)) : p last := by
  induction fuel generalizing first gathered input with
  | zero => cases h
  | succ fuel ih =>
    rw [foldMembers] at h
    split at h
    · cases h
    · cases h
      exact hp
    · split at h
      · cases h
      · split at h
        · rename_i hread
          exact ih _ _ _ (hmember _ _ _ _ _ hp hread) h
        · cases h

theorem invariant_of_readMembers {σ : Type} {member : σ → String → Reader σ} {p : σ → Prop} {empty : σ}
    (hmember : ∀ gathered key input next rest, p gathered → member gathered key input = .ok (next, rest) → p next)
    (hp : p empty) {input : List Symbol} {last : σ} {rest : List Symbol}
    (h : readMembers member empty input = .ok (last, rest)) : p last :=
  invariant_of_foldMembers hmember _ _ _ _ hp h

end Unnest.Json
