import Mathlib.Data.List.Basic
import Mathlib.Data.List.Induction
import Mathlib.Data.List.Nodup
import Unnest.Entries

/-!
# First and last entries of a list

A list of entries may name a key more than once. `firsts` keeps the first entry of every key and
`latest` the last value of every key, both in the order in which the keys first occur. Looking a key up
in a list only sees its first entry (`get?_firsts`), so `firsts` may be taken at any time
(`firsts_firsts_append`); putting the entries of a list one after another gives its latest values
(`ofList_eq_latest`).
-/

namespace Unnest

theorem isSome_mapM {α β : Type} {f : α → Option β} {as : List α} :
    (as.mapM f).isSome ↔ ∀ a ∈ as, (f a).isSome := by
  induction as with
  | nil => simp
  | cons a as ih =>
    rw [List.mapM_cons, List.forall_mem_cons, ← ih]
    cases f a <;> cases as.mapM f <;> simp

namespace Entries
variable {κ α : Type}

@[simp] theorem keys_nil : keys ([] : Entries κ α) = [] := rfl

@[simp] theorem keys_cons (entry : κ × α) (l : List (κ × α)) :
    keys (entry :: l) = entry.1 :: keys l := rfl

@[simp] theorem keys_append (l m : List (κ × α)) : keys (l ++ m) = keys l ++ keys m := by
  simp [keys]

theorem keys_filter (p : κ → Bool) (l : List (κ × α)) :
    keys (l.filter fun entry => p entry.1) = (keys l).filter p := by
  simp only [keys, List.filter_map]
  rfl

variable [DecidableEq κ]

/-- The first entry of every key. -/
def firsts (l : List (κ × α)) : Entries κ α := l.eraseDupsBy fun a b => a.1 = b.1

/-- The last value of a key. -/
def last? (l : List (κ × α)) (key : κ) : Option α :=
  ((l.filter fun entry => entry.1 = key).map Prod.snd).getLast?

/-- The last value of every key, the keys in the order in which they first occur. -/
def latest (l : List (κ × α)) : Entries κ α :=
  (keys l).eraseDups.filterMap fun key => (last? l key).map (key, ·)

theorem get?_append (l m : List (κ × α)) (key : κ) :
    get? (l ++ m) key = (get? l key).or (get? m key) := by
  induction l with
  | nil => simp
  | cons entry l ih =>
    by_cases h : entry.1 = key <;> simp [get?, h, ih]

theorem get?_filter (p : κ → Bool) (l : List (κ × α)) (key : κ) :
    get? (l.filter fun entry => p entry.1) key = if p key then get? l key else none := by
  induction l with
  | nil => simp
  | cons entry l ih =>
    by_cases hk : entry.1 = key
    · subst hk
      by_cases hp : p entry.1 <;> simp [hp, get?, ih]
    · by_cases hp : p entry.1 <;> simp [hp, get?, hk, ih]

theorem get?_eq_none_iff {l : List (κ × α)} {key : κ} : get? l key = none ↔ key ∉ keys l := by
  rw [← get?_isSome_iff, Option.not_isSome_iff_eq_none]

theorem mem_of_get? {l : List (κ × α)} {key : κ} {a : α} (h : get? l key = some a) : (key, a) ∈ l := by
  induction l with
  | nil => simp at h
  | cons entry l ih =>
    obtain ⟨k, b⟩ := entry
    simp only [get?] at h
    split at h
    · rename_i hk
      obtain rfl := Option.some.inj h
      simp [hk]
    · exact List.mem_cons_of_mem _ (ih h)

theorem mem_iff_get? {l : List (κ × α)} (h : (keys l).Nodup) {entry : κ × α} :
    entry ∈ l ↔ get? l entry.1 = some entry.2 := by
  refine ⟨fun hm => ?_, fun hget => mem_of_get? hget⟩
  induction l with
  | nil => exact absurd hm List.not_mem_nil
  | cons first l ih =>
    obtain ⟨hk, hl⟩ := List.nodup_cons.1 h
    rcases List.mem_cons.1 hm with rfl | hm
    · exact if_pos rfl
    · have hne : first.1 ≠ entry.1 := fun he => hk (he ▸ List.mem_map_of_mem hm)
      rw [get?, if_neg hne]
      exact ih hl hm

/-- Each key of a list of entries is found in it. -/
theorem mapM_keys {β : Type} {entries : Entries κ α} (h : (keys entries).Nodup) (f : κ → α → β) :
    (keys entries).mapM (fun key => (get? entries key).map (f key)) =
      some (entries.map fun entry => f entry.1 entry.2) := by
  have hsome : ∀ found : List (κ × α), (∀ entry ∈ found, get? entries entry.1 = some entry.2) →
      (keys found).mapM (fun key => (get? entries key).map (f key)) =
        some (found.map fun entry => f entry.1 entry.2) := fun found hfound => by
    induction found with
    | nil => rfl
    | cons entry found ih =>
      rw [keys_cons, List.mapM_cons, hfound entry List.mem_cons_self, Option.map_some,
        ih fun e he => hfound e (List.mem_cons_of_mem _ he)]
      rfl
  exact hsome entries fun entry hentry => (mem_iff_get? h).1 hentry

theorem get?_map_value {β : Type} (f : α → β) (l : List (κ × α)) (key : κ) :
    get? (l.map fun entry => (entry.1, f entry.2)) key = (get? l key).map f := by
  induction l with
  | nil => rfl
  | cons entry l ih =>
    by_cases h : entry.1 = key <;> simp [get?, h, ih]

theorem mem_put {entries : Entries κ α} {key : κ} {value : α} {entry : κ × α}
    (h : entry ∈ put entries key value) : entry = (key, value) ∨ entry ∈ entries := by
  induction entries with
  | nil => exact .inl (List.mem_singleton.1 h)
  | cons first rest ih =>
    obtain ⟨k, a⟩ := first
    rw [put] at h
    split at h
    · rename_i hk
      rcases List.mem_cons.1 h with rfl | hrest
      · exact .inl (by rw [hk])
      · exact .inr (List.mem_cons_of_mem _ hrest)
    · rcases List.mem_cons.1 h with rfl | hrest
      · exact .inr List.mem_cons_self
      · exact (ih hrest).imp_right (List.mem_cons_of_mem _)

theorem put_of_not_mem {entries : Entries κ α} {key : κ} (value : α) (h : key ∉ keys entries) :
    put entries key value = entries ++ [(key, value)] := by
  induction entries with
  | nil => rfl
  | cons first rest ih =>
    obtain ⟨k, a⟩ := first
    obtain ⟨hk, hrest⟩ := not_or.1 (mt List.mem_cons.2 h)
    rw [put, if_neg (Ne.symm hk), ih hrest, List.cons_append]

/-! ### First entries -/

@[simp] theorem firsts_nil : firsts ([] : List (κ × α)) = [] := rfl

theorem firsts_cons (entry : κ × α) (l : List (κ × α)) :
    firsts (entry :: l) = entry :: firsts (l.filter fun e => e.1 ≠ entry.1) := by
  simp [firsts, List.eraseDupsBy_cons]

theorem length_filter_lt (entry : κ × α) (l : List (κ × α)) :
    (l.filter fun e => e.1 ≠ entry.1).length < (entry :: l).length :=
  Nat.lt_succ_of_le (List.length_filter_le _ _)

theorem firsts_append (l m : List (κ × α)) :
    firsts (l ++ m) = firsts l ++ firsts (m.filter fun e => e.1 ∉ keys l) := by
  match l with
  | [] =>
    have hm : (m.filter fun e => e.1 ∉ keys ([] : List (κ × α))) = m :=
      List.filter_eq_self.2 fun e _ => decide_eq_true List.not_mem_nil
    rw [hm, List.nil_append, firsts_nil, List.nil_append]
  | entry :: l =>
    rw [List.cons_append, firsts_cons, firsts_cons, List.filter_append, firsts_append,
      List.filter_filter, List.cons_append]
    congr 3
    refine List.filter_congr fun e _ => ?_
    rw [keys_filter (fun key => key ≠ entry.1)]
    by_cases he : e.1 = entry.1 <;> simp [he]
termination_by l.length
decreasing_by exact length_filter_lt entry l

theorem firsts_append_singleton (l : List (κ × α)) (entry : κ × α) :
    firsts (l ++ [entry]) = if entry.1 ∈ keys l then firsts l else firsts l ++ [entry] := by
  rw [firsts_append]
  by_cases h : entry.1 ∈ keys l <;> simp [h, firsts_cons]

theorem eraseDups_append_singleton (l : List κ) (key : κ) :
    (l ++ [key]).eraseDups = l.eraseDups ++ if key ∈ l then [] else [key] := by
  rw [List.eraseDups_append]
  by_cases h : key ∈ l <;> simp [List.removeAll, h, List.eraseDups_cons]

theorem nodup_eraseDups (l : List κ) : l.eraseDups.Nodup := by
  induction l using List.reverseRecOn with
  | nil => exact List.nodup_nil
  | append_singleton l key ih =>
    rw [eraseDups_append_singleton]
    split
    · rwa [List.append_nil]
    · rename_i h
      refine List.nodup_append.2 ⟨ih, List.nodup_singleton _, fun k hk other ho he => h ?_⟩
      rw [← List.mem_singleton.1 ho, ← he]
      exact List.mem_eraseDups.1 hk

theorem keys_firsts (l : List (κ × α)) : keys (firsts l) = (keys l).eraseDups := by
  induction l using List.reverseRecOn with
  | nil => rfl
  | append_singleton l entry ih =>
    have hsingle : keys [entry] = [entry.1] := rfl
    rw [firsts_append_singleton, keys_append, hsingle, eraseDups_append_singleton, ← ih]
    by_cases h : entry.1 ∈ keys l <;> simp [h]

theorem mem_keys_firsts {l : List (κ × α)} {key : κ} : key ∈ keys (firsts l) ↔ key ∈ keys l := by
  rw [keys_firsts, List.mem_eraseDups]

theorem nodup_firsts (l : List (κ × α)) : (keys (firsts l)).Nodup := keys_firsts l ▸ nodup_eraseDups _

theorem firsts_eq_self {l : List (κ × α)} (h : (keys l).Nodup) : firsts l = l := by
  induction l using List.reverseRecOn with
  | nil => rfl
  | append_singleton l entry ih =>
    rw [keys_append] at h
    obtain ⟨hl, -, hd⟩ := List.nodup_append.1 h
    have hk : entry.1 ∉ keys l := fun hk => hd _ hk _ (List.mem_singleton_self _) rfl
    rw [firsts_append_singleton, if_neg hk, ih hl]

theorem get?_firsts (l : List (κ × α)) (key : κ) : get? (firsts l) key = get? l key := by
  induction l using List.reverseRecOn with
  | nil => rfl
  | append_singleton l entry ih =>
    rw [firsts_append_singleton, get?_append, ← ih]
    split
    · rename_i h
      by_cases hk : entry.1 = key
      · obtain ⟨a, ha⟩ := Option.isSome_iff_exists.1 (get?_isSome_iff.2 (mem_keys_firsts.2 (hk ▸ h)))
        rw [ha, Option.some_or]
      · simp [get?, hk]
    · rw [get?_append]

theorem firsts_filter (p : κ → Bool) (l : List (κ × α)) :
    firsts (l.filter fun e => p e.1) = (firsts l).filter fun e => p e.1 := by
  induction l using List.reverseRecOn with
  | nil => rfl
  | append_singleton l entry ih =>
    rw [List.filter_append, firsts_append_singleton]
    by_cases hp : p entry.1
    · have hs : [entry].filter (fun e => p e.1) = [entry] := by simp [hp]
      rw [hs, firsts_append_singleton, ih, keys_filter]
      by_cases hk : entry.1 ∈ keys l <;> simp [hk, hp]
    · by_cases hk : entry.1 ∈ keys l <;> simp [hk, hp, ih]

theorem firsts_firsts_append (l m : List (κ × α)) : firsts (firsts l ++ m) = firsts (l ++ m) := by
  rw [firsts_append, firsts_append, firsts_eq_self (nodup_firsts l)]
  simp only [mem_keys_firsts]

/-! ### Last values -/

theorem last?_append (l m : List (κ × α)) (key : κ) :
    last? (l ++ m) key = (last? m key).or (last? l key) := by
  simp [last?]

theorem last?_singleton (k key : κ) (a : α) : last? [(k, a)] key = if k = key then some a else none := by
  by_cases h : k = key <;> simp [last?, h]

theorem last?_cons (entry : κ × α) (l : List (κ × α)) (key : κ) :
    last? (entry :: l) key = (last? l key).or (if entry.1 = key then some entry.2 else none) := by
  rw [← List.singleton_append, last?_append, last?_singleton]

theorem last?_isSome_iff {l : List (κ × α)} {key : κ} : (last? l key).isSome ↔ key ∈ keys l := by
  simp [last?, keys]

theorem last?_eq_none_iff {l : List (κ × α)} {key : κ} : last? l key = none ↔ key ∉ keys l := by
  rw [← last?_isSome_iff, Option.not_isSome_iff_eq_none]

theorem mem_of_last? {l : List (κ × α)} {key : κ} {a : α} (h : last? l key = some a) : (key, a) ∈ l := by
  obtain ⟨entry, hentry, rfl⟩ := List.mem_map.1 (List.mem_of_getLast? h)
  obtain ⟨hentry, hkey⟩ := List.mem_filter.1 hentry
  rwa [← of_decide_eq_true hkey]

theorem last?_filter (p : κ → Bool) (l : List (κ × α)) (key : κ) :
    last? (l.filter fun entry => p entry.1) key = if p key then last? l key else none := by
  induction l with
  | nil => simp [last?]
  | cons entry l ih =>
    by_cases hk : entry.1 = key
    · subst hk
      by_cases hp : p entry.1 <;> simp [hp, last?_cons, ih]
    · by_cases hp : p entry.1 <;> simp [hp, last?_cons, hk, ih]

theorem last?_eq_get? {l : List (κ × α)} (h : (keys l).Nodup) (key : κ) : last? l key = get? l key := by
  induction l with
  | nil => rfl
  | cons entry l ih =>
    obtain ⟨hk, hl⟩ := List.nodup_cons.1 h
    rw [last?_cons, ih hl, get?]
    by_cases he : entry.1 = key
    · rw [if_pos he, if_pos he, get?_eq_none_iff.2 (he ▸ hk), Option.none_or]
    · rw [if_neg he, if_neg he, Option.or_none]

theorem ofList_append_singleton (l : List (κ × α)) (key : κ) (a : α) :
    ofList (l ++ [(key, a)]) = put (ofList l) key a := by
  simp [ofList]

theorem ofList_eq_self {l : List (κ × α)} (h : (keys l).Nodup) : ofList l = l := by
  induction l using List.reverseRecOn with
  | nil => rfl
  | append_singleton l entry ih =>
    rw [keys_append] at h
    obtain ⟨hl, -, hd⟩ := List.nodup_append.1 h
    have hk : entry.1 ∉ keys l := fun hk => hd _ hk _ (List.mem_singleton_self _) rfl
    rw [ofList_append_singleton, ih hl, put_of_not_mem _ hk]

theorem keys_ofList (l : List (κ × α)) : keys (ofList l) = (keys l).eraseDups := by
  induction l using List.reverseRecOn with
  | nil => rfl
  | append_singleton l entry ih =>
    rw [ofList_append_singleton, keys_put, ih, keys_append, List.eraseDups_append]
    by_cases h : entry.1 ∈ keys l <;> simp [h, List.removeAll, List.eraseDups_cons]

theorem get?_ofList (l : List (κ × α)) (key : κ) : get? (ofList l) key = last? l key := by
  induction l using List.reverseRecOn with
  | nil => rfl
  | append_singleton l entry ih =>
    rw [ofList_append_singleton, get?_put, ih, last?_append, last?_singleton]
    split <;> rfl

theorem eq_filterMap_keys {l : List (κ × α)} (h : (keys l).Nodup) :
    l = (keys l).filterMap fun key => (get? l key).map (key, ·) := by
  induction l with
  | nil => rfl
  | cons entry l ih =>
    obtain ⟨hk, hl⟩ := List.nodup_cons.1 h
    have hrest : (keys l).filterMap (fun key => (get? (entry :: l) key).map (key, ·))
        = (keys l).filterMap fun key => (get? l key).map (key, ·) :=
      List.filterMap_congr fun key hkey => by
        have hne : entry.1 ≠ key := fun he => hk (he ▸ hkey)
        simp [get?, hne]
    rw [keys_cons, List.filterMap_cons, hrest, ← ih hl]
    simp [get?]

theorem ofList_eq_latest (l : List (κ × α)) : ofList l = latest l := by
  have hn : (keys (ofList l)).Nodup := by
    rw [keys_ofList, ← keys_firsts]
    exact nodup_firsts l
  rw [eq_filterMap_keys hn, keys_ofList, latest]
  simp only [get?_ofList]

theorem keys_latest (l : List (κ × α)) : keys (latest l) = (keys l).eraseDups := by
  rw [← ofList_eq_latest, keys_ofList]

theorem get?_latest (l : List (κ × α)) (key : κ) : get? (latest l) key = last? l key := by
  rw [← ofList_eq_latest, get?_ofList]

theorem nodup_latest (l : List (κ × α)) : (keys (latest l)).Nodup := by
  rw [keys_latest, ← keys_firsts]
  exact nodup_firsts l

end Entries

end Unnest
