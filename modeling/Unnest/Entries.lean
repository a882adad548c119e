/-!
# Ordered entries

An ordered dictionary is kept as the list of its entries. `Entries.put` gives a key its last value
and leaves it at the place where it was first put, so the list is at once the lookup table and the
order in which keys were first seen. `Entries.get?` reads it back: `get?_put` says that a write
changes the answer for its own key and for no other, and `nodup_put` that keys never repeat.
-/

namespace Unnest

/-- The entries of a dictionary, in the order in which their keys were first put. -/
abbrev Entries (κ α : Type) := List (κ × α)

namespace Entries
variable {κ α : Type} [DecidableEq κ]

def get? : Entries κ α → κ → Option α
  | [], _ => none
  | (k, a) :: rest, key => if k = key then some a else get? rest key

def contains (entries : Entries κ α) (key : κ) : Bool := (get? entries key).isSome

/-- Gives `key` the value `value`: in place where the key is known, at the end where it is new. -/
def put : Entries κ α → κ → α → Entries κ α
  | [], key, value => [(key, value)]
  | (k, a) :: rest, key, value =>
    if k = key then (k, value) :: rest else (k, a) :: put rest key value

/-- Puts every entry of a list in turn, so that the last value of a key wins. -/
def ofList (entries : List (κ × α)) : Entries κ α :=
  entries.foldl (fun known entry => put known entry.1 entry.2) []

/-- The keys in first-put order. -/
def keys (entries : Entries κ α) : List κ := entries.map Prod.fst

@[simp] theorem get?_nil (key : κ) : get? ([] : Entries κ α) key = none := rfl

theorem get?_put (entries : Entries κ α) (key other : κ) (value : α) :
    get? (put entries key value) other = if key = other then some value else get? entries other := by
  induction entries with
  | nil => simp [put, get?]
  | cons entry rest ih =>
    obtain ⟨k, a⟩ := entry
    by_cases hk : k = key
    · subst hk
      by_cases ho : k = other <;> simp [put, get?, ho]
    · by_cases ho : k = other
      · subst ho
        simp [put, get?, hk, Ne.symm hk]
      · simp [put, get?, hk, ho, ih]

theorem get?_isSome_iff {entries : Entries κ α} {key : κ} :
    (get? entries key).isSome ↔ key ∈ keys entries := by
  induction entries with
  | nil => simp [keys]
  | cons entry rest ih =>
    obtain ⟨k, a⟩ := entry
    by_cases hk : k = key
    · simp [get?, keys, hk]
    · have : key ≠ k := Ne.symm hk
      simp only [keys] at ih
      simp [get?, keys, hk, this, ih]

theorem keys_put (entries : Entries κ α) (key : κ) (value : α) :
    keys (put entries key value) = if key ∈ keys entries then keys entries else keys entries ++ [key] := by
  induction entries with
  | nil => simp [put, keys]
  | cons entry rest ih =>
    obtain ⟨k, a⟩ := entry
    by_cases hk : k = key
    · simp [put, keys, hk]
    · have : key ≠ k := Ne.symm hk
      simp only [keys] at ih
      by_cases hm : key ∈ List.map Prod.fst rest <;>
        simp [put, hk, keys, ih, this, hm]

theorem nodup_put {entries : Entries κ α} (key : κ) (value : α) (h : (keys entries).Nodup) :
    (keys (put entries key value)).Nodup := by
  rw [keys_put]
  split
  · exact h
  · rename_i hk
    exact List.nodup_append.2 ⟨h, by simp, by
      intro a ha b hb
      rcases List.mem_singleton.1 hb with rfl
      exact fun hab => hk (hab ▸ ha)⟩

end Entries

end Unnest
