import Unnest.Proofs.Sharing.Client
import Unnest.Proofs.Sharing.Store

/-!
# Clients over shared caches

A client over a caching describer takes a question through up to three steps: it looks the question up, asks
the inner describer if nothing is found, and keeps the answer if there is one. Others may come between any two
of these steps. `Task.step` is one step, and `Shared.Inv` is what everybody who shares the caches can rely on:
they hold answers of the inner describer, each under its own question. A step keeps it and leads the task
towards the result that the answers of the inner describer give its client (`Task.advances_step`).
-/

namespace Unnest
variable {β σ : Type}

/-- A caching describer keeps answers in two stores. -/
structure Caches where
  assets : Store String (Option String)
  models : Store String (List Property)

namespace Caches

structure Honest (caches : Caches) : Prop where
  assets : caches.assets.Honest
  models : caches.models.Honest

/-- The stores that a `Cache` consists of. -/
def entries (keeps : Bool) : Caches where
  assets := Store.entries String (Option String) keeps
  models := Store.entries String (List Property) keeps

theorem honest_entries (keeps : Bool) : (entries keeps).Honest :=
  ⟨Store.honest_entries String (Option String) keeps, Store.honest_entries String (List Property) keeps⟩

end Caches

/-- The states of an inner describer and of the caches before it. -/
structure Shared (σ : Type) (caches : Caches) where
  inner : σ
  assets : caches.assets.State
  models : caches.models.State

variable {caches : Caches}

namespace Shared

def lookUp (shared : Shared σ caches) : (call : Call) → Option call.Result × Shared σ caches
  | .asset id =>
    let (found, assets) := caches.assets.get id shared.assets
    (found, { shared with assets })
  | .model id =>
    let (found, models) := caches.models.get id shared.models
    (found, { shared with models })

def ask (shared : Shared σ caches) (describer : Describer σ) (call : Call) :
    Answer call.Result × Shared σ caches :=
  let (answer, inner) := (describer.answer call shared.inner).value
  (answer, { shared with inner })

def keep (shared : Shared σ caches) : (call : Call) → call.Result → Shared σ caches
  | .asset id, model => { shared with assets := caches.assets.insert id model shared.assets }
  | .model id, properties => { shared with models := caches.models.insert id properties shared.models }

end Shared

/-- How far a client has come: it may be asking a question that was not found, or keeping an answer. -/
inductive Task (β : Type) where
  | running (client : Client β)
  | asking (call : Call) (next : Answer call.Result → Client β)
  | keeping (call : Call) (result : call.Result) (next : Answer call.Result → Client β)

namespace Task

/-- One step of a task; one that is done stays so. -/
def step (describer : Describer σ) : Task β × Shared σ caches → Task β × Shared σ caches
  | (running (.done result), shared) => (running (.done result), shared)
  | (running (.report _ rest), shared) => (running rest, shared)
  | (running (.ask call next), shared) =>
    match shared.lookUp call with
    | (some result, shared) => (running (next (.ok result)), shared)
    | (none, shared) => (asking call next, shared)
  | (asking call next, shared) =>
    match shared.ask describer call with
    | (.ok result, shared) => (keeping call result next, shared)
    | (.error error, shared) => (running (next (.error error)), shared)
  | (keeping call result next, shared) => (running (next (.ok result)), shared.keep call result)

def reply? : Task β → Option β
  | running (.done result) => some result.value
  | _ => none

/-- A task is on its way to a result. -/
def LeadsTo (answers : (call : Call) → Answer call.Result) (b : β) : Task β → Prop
  | running client => client.value answers = b
  | asking call next => (next (answers call)).value answers = b
  | keeping call result next => answers call = .ok result ∧ (next (answers call)).value answers = b

def remaining (answers : (call : Call) → Answer call.Result) : Task β → Nat
  | running client => client.length answers
  | asking call next => (next (answers call)).length answers + 2
  | keeping call _ next => (next (answers call)).length answers + 1

variable {answers : (call : Call) → Answer call.Result} {b : β} {task : Task β}

theorem LeadsTo.eq_of_reply? (h : task.LeadsTo answers b) {reply : β} (hreply : task.reply? = some reply) :
    reply = b := by
  cases task with
  | running client =>
    cases client with
    | done result => exact (Option.some_inj.1 hreply).symm.trans h
    | report event rest => exact nomatch hreply
    | ask call next => exact nomatch hreply
  | asking call next => exact nomatch hreply
  | keeping call result next => exact nomatch hreply

theorem LeadsTo.reply?_eq (h : task.LeadsTo answers b) (hdone : task.remaining answers = 0) :
    task.reply? = some b := by
  cases task with
  | running client =>
    cases client with
    | done result => exact congrArg some h
    | report event rest => exact nomatch hdone
    | ask call next => exact nomatch hdone
  | asking call next => exact nomatch hdone
  | keeping call result next => exact nomatch hdone

end Task

/-- The caches hold what the inner describer answers. -/
structure Shared.Inv (describer : Describer σ) (state : σ) (shared : Shared σ caches) : Prop where
  inner : ∃ calls, shared.inner = describer.after state calls
  assets : Store.Holds (fun id model => describer.reply state (.asset id) = .ok model) shared.assets
  models : Store.Holds (fun id properties => describer.reply state (.model id) = .ok properties) shared.models

namespace Shared
variable {describer : Describer σ} {state : σ} {shared : Shared σ caches}

theorem Inv.lookUp (h : shared.Inv describer state) (honest : caches.Honest) (call : Call) :
    (shared.lookUp call).2.Inv describer state ∧
      ∀ result, (shared.lookUp call).1 = some result → describer.reply state call = .ok result := by
  cases call with
  | asset id =>
    exact ⟨⟨h.inner, h.assets.perform (.get id) nofun, h.models⟩,
      fun result hfound => honest.assets.good_of_get h.assets hfound⟩
  | model id =>
    exact ⟨⟨h.inner, h.assets, h.models.perform (.get id) nofun⟩,
      fun result hfound => honest.models.good_of_get h.models hfound⟩

theorem Inv.ask (h : shared.Inv describer state) (steady : describer.Steady state) (call : Call) :
    (shared.ask describer call).2.Inv describer state ∧
      (shared.ask describer call).1 = describer.reply state call := by
  obtain ⟨calls, hinner⟩ := h.inner
  constructor
  · exact ⟨⟨calls ++ [call], by rw [Describer.after_append_singleton, ← hinner]; rfl⟩, h.assets, h.models⟩
  · rw [← steady calls call, ← hinner]
    rfl

theorem Inv.keep (h : shared.Inv describer state) {call : Call} {result : call.Result}
    (hresult : describer.reply state call = .ok result) : (shared.keep call result).Inv describer state := by
  cases call with
  | asset id =>
    refine ⟨h.inner, h.assets.perform (.insert id result) ?_, h.models⟩
    rintro _ _ ⟨⟩
    exact hresult
  | model id =>
    refine ⟨h.inner, h.assets, h.models.perform (.insert id result) ?_⟩
    rintro _ _ ⟨⟩
    exact hresult

end Shared

namespace Task
variable {describer : Describer σ} {state : σ} {shared : Shared σ caches} {b : β} {task : Task β}

/-- A step leaves the caches sound and brings the task nearer to its result. -/
structure Advances (describer : Describer σ) (state : σ) (b : β) (n : Nat)
    (next : Task β × Shared σ caches) : Prop where
  shared : next.2.Inv describer state
  leadsTo : next.1.LeadsTo (describer.reply state) b
  remaining : next.1.remaining (describer.reply state) ≤ n - 1

theorem advances_step (steady : describer.Steady state) (honest : caches.Honest)
    (hshared : shared.Inv describer state) (h : task.LeadsTo (describer.reply state) b) :
    Advances describer state b (task.remaining (describer.reply state)) (step describer (task, shared)) := by
  cases task with
  | running client =>
    cases client with
    | done result => exact ⟨hshared, h, Nat.le_refl 0⟩
    | report event rest => exact ⟨hshared, h, Nat.le_refl _⟩
    | ask call next =>
      obtain ⟨hshared', hfound⟩ := hshared.lookUp honest call
      rw [step]
      rcases hlookUp : shared.lookUp call with ⟨found, shared'⟩
      rw [hlookUp] at hshared' hfound
      cases found with
      | none => exact ⟨hshared', h, Nat.le_refl _⟩
      | some result =>
        -- what is found is what the inner describer would answer
        have hreply := hfound result rfl
        refine ⟨hshared', ?_, ?_⟩
        · rw [LeadsTo, ← hreply]
          exact h
        · rw [remaining, ← hreply]
          exact Nat.le_add_right _ 2
  | asking call next =>
    obtain ⟨hshared', hanswer⟩ := hshared.ask steady call
    rw [step]
    rcases hask : shared.ask describer call with ⟨answer, shared'⟩
    rw [hask] at hshared' hanswer
    cases answer with
    | ok result => exact ⟨hshared', ⟨hanswer.symm, h⟩, Nat.le_refl _⟩
    | error error =>
      have hreply : .error error = describer.reply state call := hanswer
      refine ⟨hshared', ?_, ?_⟩
      · rw [LeadsTo, hreply]
        exact h
      · rw [remaining, hreply]
        exact Nat.le_succ _
  | keeping call result next =>
    obtain ⟨hreply, h⟩ := h
    refine ⟨hshared.keep hreply, ?_, ?_⟩
    · rw [step, LeadsTo, ← hreply]
      exact h
    · rw [step, remaining, ← hreply]
      exact Nat.le_refl _

end Task

end Unnest
