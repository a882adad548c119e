import Unnest.Describe.Cache
import Unnest.Proofs.Entries

/-!
# Stores

A store is what a cache is kept in: values are inserted under keys and may be found again. How long it keeps
them is its own affair, for entries expire and make room for others. All that is asked of it is that it is
`Honest`: what it finds under a key was inserted under that key. So if only good values are inserted, only good
values are found (`Honest.good_of_get`). The entries of `Cache` are such a store (`honest_entries`).
-/

namespace Unnest

theorem Entries.get?_of_get?_filter_ne {κ ν : Type} [DecidableEq κ] {entries : Entries κ ν} {dropped key : κ}
    {value : ν} (h : get? (entries.filter fun entry => entry.1 ≠ dropped) key = some value) :
    get? entries key = some value := by
  rw [get?_filter fun k => k ≠ dropped] at h
  split at h
  · exact h
  · cases h

structure Store (κ ν : Type) where
  State : Type
  empty : State
  /-- Finds a value or not, and may note that it was asked for. -/
  get : κ → State → Option ν × State
  insert : κ → ν → State → State
  clear : State → State
  /-- What makes a store drop entries of its own accord. -/
  Event : Type
  pass : Event → State → State

namespace Store
variable {κ ν : Type} {store : Store κ ν}

/-- What is done to a store or happens to it. -/
inductive Op (store : Store κ ν) where
  | get (key : κ)
  | insert (key : κ) (value : ν)
  | clear
  | pass (event : store.Event)

def perform (store : Store κ ν) (state : store.State) : store.Op → store.State
  | .get key => (store.get key state).2
  | .insert key value => store.insert key value state
  | .clear => store.clear state
  | .pass event => store.pass event state

def after (store : Store κ ν) (ops : List store.Op) : store.State := ops.foldl store.perform store.empty

/-- What is found under a key was inserted under it. -/
def Honest (store : Store κ ν) : Prop :=
  ∀ ops key value, (store.get key (store.after ops)).1 = some value → .insert key value ∈ ops

/-- Only good values have been inserted. -/
def Holds (good : κ → ν → Prop) (state : store.State) : Prop :=
  ∃ ops, state = store.after ops ∧ ∀ key value, .insert key value ∈ ops → good key value

theorem after_append_singleton (ops : List store.Op) (op : store.Op) :
    store.after (ops ++ [op]) = store.perform (store.after ops) op := by
  rw [after, List.foldl_append]
  rfl

section
variable {good : κ → ν → Prop} {state : store.State}

theorem holds_empty : Holds good store.empty := ⟨[], rfl, nofun⟩

theorem Holds.perform (h : Holds good state) (op : store.Op)
    (hop : ∀ key value, op = .insert key value → good key value) : Holds good (store.perform state op) := by
  obtain ⟨ops, rfl, hops⟩ := h
  refine ⟨ops ++ [op], (after_append_singleton ops op).symm, fun key value hm => ?_⟩
  rcases List.mem_append.1 hm with hm | hm
  · exact hops key value hm
  · exact hop key value (List.mem_singleton.1 hm).symm

theorem Honest.good_of_get (honest : store.Honest) (h : Holds good state) {key : κ} {value : ν}
    (hget : (store.get key state).1 = some value) : good key value := by
  obtain ⟨ops, rfl, hops⟩ := h
  exact hops key value (honest ops key value hget)

end

/-- A store is honest if no operation but its insertion makes a value appear. -/
theorem honest_of_perform (hempty : ∀ key, (store.get key store.empty).1 = none)
    (hperform : ∀ state op key value, (store.get key (store.perform state op)).1 = some value →
      (store.get key state).1 = some value ∨ op = .insert key value) : store.Honest := by
  intro ops
  induction ops using List.reverseRecOn with
  | nil =>
    intro key value h
    exact nomatch (hempty key).symm.trans h
  | append_singleton ops op ih =>
    intro key value h
    rw [after_append_singleton] at h
    rcases hperform _ op key value h with h | rfl
    · exact List.mem_append_left _ (ih key value h)
    · exact List.mem_append_right _ (List.mem_singleton_self _)

/-- The entries of a cache that keeps what is inserted, or nothing at all. Any key may be dropped. -/
def entries (κ ν : Type) [DecidableEq κ] (keeps : Bool) : Store κ ν where
  State := Entries κ ν
  empty := []
  get key state := (Entries.get? state key, state)
  insert key value state := if keeps then Entries.put state key value else state
  clear _ := []
  Event := κ
  pass dropped state := state.filter fun entry => entry.1 ≠ dropped

theorem honest_entries (κ ν : Type) [DecidableEq κ] (keeps : Bool) : (entries κ ν keeps).Honest := by
  refine honest_of_perform (fun _ => rfl) fun (state : Entries κ ν) op key value h => ?_
  cases op with
  | get other => exact .inl h
  | clear => exact nomatch h
  | pass dropped => exact .inl (Entries.get?_of_get?_filter_ne h)
  | insert other inserted =>
    cases keeps with
    | false => exact .inl h
    | true =>
      have hget : (if other = key then some inserted else Entries.get? state key) = some value :=
        (Entries.get?_put state other key inserted).symm.trans h
      split at hget
      · rename_i hkey
        exact .inr (by rw [hkey, Option.some_inj.1 hget])
      · exact .inl hget

end Store

end Unnest
