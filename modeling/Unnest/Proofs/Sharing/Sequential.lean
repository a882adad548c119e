import Mathlib.Logic.Function.Iterate
import Unnest.Describe.Catalog
import Unnest.Proofs.Sharing.Tasks

/-!
# One client after another

`Describer.cached` answers a question in one go. It does what a task does that nobody comes between: the answer
is looked up, asked and kept (`Describer.answer_cached`), and so a client that has the caches to itself comes to
the result that it has over the caching describer, and leaves the same answers in the cache
(`Task.iterate_step`). If the inner describer is steady, that is the result which it has over the inner describer,
and the next client finds the caches as sound (`Job.run_cached`).
-/

namespace Unnest
variable {α β σ : Type} {keeps : Bool}

/-- The state of the caching describer whose caches are shared. -/
def Shared.state (shared : Shared σ (Caches.entries keeps)) : Cache × σ :=
  ({ keeps, assets := shared.assets, models := shared.models }, shared.inner)

/-- A caching describer looks a question up, asks it and keeps the answer. -/
theorem Describer.answer_cached (describer : Describer σ) (call : Call)
    (shared : Shared σ (Caches.entries keeps)) :
    (describer.cached.answer call shared.state).value =
      match shared.lookUp call with
      | (some result, shared) => (.ok result, shared.state)
      | (none, shared) =>
        match shared.ask describer call with
        | (.ok result, shared) => (.ok result, (shared.keep call result).state)
        | (.error error, shared) => (.error error, shared.state) := by
  cases call with
  | asset id =>
    have hlookUp : shared.lookUp (.asset id) = (shared.state.1.asset? id, shared) := rfl
    rw [hlookUp]
    simp only [answer, cached, bind, StateT.bind, get, getThe, MonadStateOf.get, StateT.get, pure]
    cases shared.state.1.asset? id with
    | some model => rfl
    | none =>
      simp only [inner, Shared.ask, Shared.state, answer, bind, StateT.bind]
      rcases describer.asset id shared.inner with ⟨⟨_ | model, _⟩, _⟩
      · rfl
      · cases keeps <;> rfl
  | model id =>
    have hlookUp : shared.lookUp (.model id) = (shared.state.1.model? id, shared) := rfl
    rw [hlookUp]
    simp only [answer, cached, bind, StateT.bind, get, getThe, MonadStateOf.get, StateT.get, pure]
    cases shared.state.1.model? id with
    | some properties => rfl
    | none =>
      simp only [inner, Shared.ask, Shared.state, answer, bind, StateT.bind]
      rcases describer.model id shared.inner with ⟨⟨_ | properties, _⟩, _⟩
      · rfl
      · cases keeps <;> rfl

namespace Task

theorem iterate_step (describer : Describer σ) (client : Client β) (shared : Shared σ (Caches.entries keeps)) :
    ∃ n result shared',
      (step describer)^[n] (running client, shared) = (running (.done result), shared') ∧
        (client.run describer.cached shared.state).value = (result.value, shared'.state) := by
  induction client generalizing shared with
  | done result => exact ⟨0, result, shared, rfl, rfl⟩
  | report event rest ih =>
    obtain ⟨n, result, shared', hsteps, hrun⟩ := ih shared
    exact ⟨n + 1, result, shared', hsteps, hrun⟩
  | ask call next ih =>
    have hrun : ∀ {answer state}, (describer.cached.answer call shared.state).value = (answer, state) →
        ((Client.ask call next).run describer.cached shared.state).value =
          ((next answer).run describer.cached state).value := by
      intro answer state h
      show ((next (describer.cached.answer call shared.state).value.1).run describer.cached
        (describer.cached.answer call shared.state).value.2).value = _
      rw [h]
    have hanswer := describer.answer_cached call shared
    rcases hlookUp : shared.lookUp call with ⟨found, shared₁⟩
    rw [hlookUp] at hanswer
    cases found with
    | some result =>
      obtain ⟨n, result', shared', hsteps, hnext⟩ := ih (.ok result) shared₁
      refine ⟨n + 1, result', shared', ?_, (hrun hanswer).trans hnext⟩
      rw [Function.iterate_succ_apply, step, hlookUp]
      exact hsteps
    | none =>
      rcases hask : shared₁.ask describer call with ⟨answer, shared₂⟩
      dsimp only at hanswer
      rw [hask] at hanswer
      cases answer with
      | error error =>
        obtain ⟨n, result', shared', hsteps, hnext⟩ := ih (.error error) shared₂
        refine ⟨n + 2, result', shared', ?_, (hrun hanswer).trans hnext⟩
        rw [Function.iterate_succ_apply, step, hlookUp, Function.iterate_succ_apply, step, hask]
        exact hsteps
      | ok result =>
        obtain ⟨n, result', shared', hsteps, hnext⟩ := ih (.ok result) (shared₂.keep call result)
        refine ⟨n + 3, result', shared', ?_, (hrun hanswer).trans hnext⟩
        rw [Function.iterate_succ_apply, step, hlookUp, Function.iterate_succ_apply, step, hask,
          Function.iterate_succ_apply, step]
        exact hsteps

end Task

/-- A job that has the caches to itself does what it does over the caching describer. -/
theorem Job.iterate_step [Quantity α] (describer : Describer σ) (job : Job α)
    (shared : Shared σ (Caches.entries keeps)) :
    ∃ n task shared', (Task.step describer)^[n] (.running job.client, shared) = (task, shared') ∧
      task.reply? = some (job.run describer.cached shared.state).value.1 ∧
        shared'.state = (job.run describer.cached shared.state).value.2 := by
  obtain ⟨n, result, shared', hsteps, hrun⟩ := Task.iterate_step describer job.client shared
  rw [job.run_client] at hrun
  refine ⟨n, _, shared', hsteps, ?_, ?_⟩
  · rw [hrun]
    rfl
  · rw [hrun]

namespace Task
variable {describer : Describer σ} {start : σ} {caches : Caches} {shared : Shared σ caches} {b : β} {task : Task β}

theorem inv_iterate_step (steady : describer.Steady start) (honest : caches.Honest)
    (hshared : shared.Inv describer start) (h : task.LeadsTo (describer.reply start) b) (n : Nat) :
    ((step describer)^[n] (task, shared)).2.Inv describer start ∧
      ((step describer)^[n] (task, shared)).1.LeadsTo (describer.reply start) b := by
  induction n generalizing task shared with
  | zero => exact ⟨hshared, h⟩
  | succ n ih =>
    have hstep := advances_step steady honest hshared h
    exact ih hstep.shared hstep.leadsTo

end Task

namespace Describer

/-- The cache of a state holds what the inner describer answers. -/
def Consistent (describer : Describer σ) (start : σ) (state : Cache × σ) : Prop :=
  ∃ (keeps : Bool) (shared : Shared σ (Caches.entries keeps)), shared.Inv describer start ∧ shared.state = state

theorem consistent_ofLimits? (describer : Describer σ) (start : σ) {lifetime capacity : Nat} {cache : Cache}
    (h : Cache.ofLimits? lifetime capacity = some cache) : describer.Consistent start (cache, start) := by
  rw [Cache.ofLimits?] at h
  split at h
  · cases h
  · cases h
    exact ⟨_, ⟨start, [], []⟩, ⟨⟨[], rfl⟩, Store.holds_empty, Store.holds_empty⟩, rfl⟩

end Describer

/-- With a cache that holds true answers a job has the result that it has without, and the cache still holds true
answers. -/
theorem Job.run_cached [Quantity α] {describer : Describer σ} {start : σ} {state : Cache × σ}
    (steady : describer.Steady start) (consistent : describer.Consistent start state) (job : Job α) :
    (job.run describer.cached state).value.1 = (job.run describer start).value.1 ∧
      describer.Consistent start (job.run describer.cached state).value.2 := by
  obtain ⟨keeps, shared, hshared, rfl⟩ := consistent
  obtain ⟨n, task, shared', hsteps, hreply, hstate⟩ := job.iterate_step describer shared
  have hleads : (Task.running job.client).LeadsTo (describer.reply start) (job.run describer start).value.1 :=
    job.value_client steady
  have htask := Task.inv_iterate_step steady (Caches.honest_entries keeps) hshared hleads n
  rw [hsteps] at htask
  exact ⟨htask.2.eq_of_reply? hreply, keeps, shared', htask.1, hstate⟩

theorem Catalog.steady_describer (catalog : Catalog) : catalog.describer.Steady () := fun _ _ => rfl

end Unnest
