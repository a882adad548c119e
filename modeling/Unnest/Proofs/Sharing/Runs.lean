import Unnest.Proofs.Flatten.Cells
import Unnest.Proofs.Sharing.Tasks

/-!
# Runs over a shared caching describer

Any number of jobs may share a caching describer. A run is a list of moves in any order: a job starts, a task
takes a step, a cache is cleared or drops entries. Looking up, asking and keeping are one move each, so nothing
happens in the midst of them, and anything may happen in between. Every move keeps `World.Inv`, and none but a
task's own changes how far it has come. So a task that is done has the result of its job over the inner
describer alone, and a task is done once it has taken `Job.mostSteps` steps (`World.replies_run`).
-/

namespace Unnest
variable {α σ : Type} {caches : Caches}

/-- What can happen next. Clearing both caches is two moves. -/
inductive Move (α : Type) (caches : Caches) where
  | start (job : Job α)
  | work (position : Nat)
  | clearAssets
  | clearModels
  | passAssets (event : caches.assets.Event)
  | passModels (event : caches.models.Event)

def Move.isWork (position : Nat) : Move α caches → Bool
  | work other => other = position
  | _ => false

/-- A caching describer and the tasks that share it, each with its job. -/
structure World (α σ : Type) (caches : Caches) where
  shared : Shared σ caches
  tasks : List ((job : Job α) × Task job.Reply) := []

namespace World
variable [Quantity α]

def initial (state : σ) : World α σ caches where
  shared := { inner := state, assets := caches.assets.empty, models := caches.models.empty }

def perform (describer : Describer σ) (world : World α σ caches) : Move α caches → World α σ caches
  | .start job => { world with tasks := world.tasks ++ [⟨job, .running job.client⟩] }
  | .work position =>
    match world.tasks[position]? with
    | none => world
    | some ⟨job, task⟩ =>
      let (task, shared) := Task.step describer (task, world.shared)
      { shared, tasks := world.tasks.set position ⟨job, task⟩ }
  | .clearAssets => { world with shared.assets := caches.assets.clear world.shared.assets }
  | .clearModels => { world with shared.models := caches.models.clear world.shared.models }
  | .passAssets event => { world with shared.assets := caches.assets.pass event world.shared.assets }
  | .passModels event => { world with shared.models := caches.models.pass event world.shared.models }

def run (describer : Describer σ) (world : World α σ caches) (moves : List (Move α caches)) :
    World α σ caches :=
  moves.foldl (perform describer) world

/-- A task is on its way to the result of its job, and not far from it. -/
structure OnTrack (describer : Describer σ) (state : σ) (job : Job α) (task : Task job.Reply) : Prop where
  leadsTo : task.LeadsTo (describer.reply state) (job.run describer state).value.1
  remaining : task.remaining (describer.reply state) ≤ Job.mostSteps

structure Inv (describer : Describer σ) (state : σ) (world : World α σ caches) : Prop where
  shared : world.shared.Inv describer state
  tasks : ∀ entry ∈ world.tasks, OnTrack describer state entry.1 entry.2

variable {describer : Describer σ} {state : σ} {world : World α σ caches}

theorem inv_initial : (initial state : World α σ caches).Inv describer state :=
  ⟨⟨⟨[], rfl⟩, Store.holds_empty, Store.holds_empty⟩, nofun⟩

theorem Inv.start (h : world.Inv describer state) (steady : describer.Steady state) (job : Job α) :
    (world.perform describer (.start job)).Inv describer state := by
  refine ⟨h.shared, fun entry hm => ?_⟩
  rcases List.mem_append.1 hm with hm | hm
  · exact h.tasks entry hm
  · obtain rfl := List.mem_singleton.1 hm
    exact ⟨job.value_client steady, job.length_client_le _⟩

theorem Inv.work (h : world.Inv describer state) (steady : describer.Steady state) (honest : caches.Honest)
    (position : Nat) : (world.perform describer (.work position)).Inv describer state := by
  rw [perform]
  cases ht : world.tasks[position]? with
  | none => exact h
  | some entry =>
    obtain ⟨job, task⟩ := entry
    have htask : OnTrack describer state job task := h.tasks _ (List.mem_of_getElem? ht)
    have hstep := Task.advances_step steady honest h.shared htask.leadsTo
    refine ⟨hstep.shared, fun entry hm => ?_⟩
    rcases List.mem_or_eq_of_mem_set hm with hm | rfl
    · exact h.tasks entry hm
    · exact ⟨hstep.leadsTo, Nat.le_trans hstep.remaining (Nat.le_trans (Nat.sub_le _ 1) htask.remaining)⟩

theorem Inv.perform (h : world.Inv describer state) (steady : describer.Steady state) (honest : caches.Honest)
    (move : Move α caches) : (world.perform describer move).Inv describer state := by
  obtain ⟨hinner, hassets, hmodels⟩ := h.shared
  cases move with
  | start job => exact h.start steady job
  | work position => exact h.work steady honest position
  | clearAssets => exact ⟨⟨hinner, hassets.perform .clear nofun, hmodels⟩, h.tasks⟩
  | clearModels => exact ⟨⟨hinner, hassets, hmodels.perform .clear nofun⟩, h.tasks⟩
  | passAssets event => exact ⟨⟨hinner, hassets.perform (.pass event) nofun, hmodels⟩, h.tasks⟩
  | passModels event => exact ⟨⟨hinner, hassets, hmodels.perform (.pass event) nofun⟩, h.tasks⟩

theorem Inv.run (h : world.Inv describer state) (steady : describer.Steady state) (honest : caches.Honest)
    (moves : List (Move α caches)) : (world.run describer moves).Inv describer state := by
  induction moves generalizing world with
  | nil => exact h
  | cons move moves ih => exact ih (h.perform steady honest move)

section
variable {position : Nat} {job : Job α} {task : Task job.Reply}

/-- Its own steps bring a task nearer to its result; other moves leave it where it is. -/
theorem Inv.remaining_perform (h : world.Inv describer state) (steady : describer.Steady state)
    (honest : caches.Honest) (ht : world.tasks[position]? = some ⟨job, task⟩) (move : Move α caches) :
    ∃ task' : Task job.Reply, (world.perform describer move).tasks[position]? = some ⟨job, task'⟩ ∧
      task'.remaining (describer.reply state) ≤
        task.remaining (describer.reply state) - (if move.isWork position then 1 else 0) := by
  cases move with
  | start other =>
    obtain ⟨hlt, -⟩ := List.getElem?_eq_some_iff.1 ht
    exact ⟨task, (List.getElem?_append_left hlt).trans ht, Nat.le_refl _⟩
  | work other =>
    rw [World.perform]
    by_cases hother : other = position
    · subst hother
      obtain ⟨hlt, -⟩ := List.getElem?_eq_some_iff.1 ht
      have hstep := Task.advances_step steady honest h.shared (h.tasks _ (List.mem_of_getElem? ht)).leadsTo
      rw [ht]
      refine ⟨_, List.getElem?_set_self hlt, ?_⟩
      simpa [Move.isWork] using hstep.remaining
    · -- another task's step changes another place of the list
      have hidle : (Move.work other : Move α caches).isWork position = false := decide_eq_false hother
      refine ⟨task, ?_, by rw [hidle]; exact Nat.le_refl _⟩
      cases world.tasks[other]? with
      | none => exact ht
      | some entry => exact (List.getElem?_set_ne hother).trans ht
  | clearAssets => exact ⟨task, ht, Nat.le_refl _⟩
  | clearModels => exact ⟨task, ht, Nat.le_refl _⟩
  | passAssets event => exact ⟨task, ht, Nat.le_refl _⟩
  | passModels event => exact ⟨task, ht, Nat.le_refl _⟩

theorem Inv.remaining_run (h : world.Inv describer state) (steady : describer.Steady state)
    (honest : caches.Honest) (ht : world.tasks[position]? = some ⟨job, task⟩) (moves : List (Move α caches)) :
    ∃ task' : Task job.Reply, (world.run describer moves).tasks[position]? = some ⟨job, task'⟩ ∧
      task'.remaining (describer.reply state) ≤
        task.remaining (describer.reply state) - moves.countP (Move.isWork position) := by
  induction moves generalizing world task with
  | nil => exact ⟨task, ht, Nat.le_refl _⟩
  | cons move moves ih =>
    obtain ⟨task', ht', hle⟩ := h.remaining_perform steady honest ht move
    obtain ⟨task'', ht'', hle'⟩ := ih (h.perform steady honest move) ht'
    refine ⟨task'', ht'', ?_⟩
    rw [List.countP_cons]
    omega

end

/-- However the steps of jobs and caches mix, a job has the result that it has over the inner describer, provided
that this one's answers do not change; and it comes to it after so many steps of its own. -/
theorem replies_run (describer : Describer σ) (state : σ) (steady : describer.Steady state) (caches : Caches)
    (honest : caches.Honest) (moves : List (Move α caches)) (position : Nat) (job : Job α)
    (task : Task job.Reply) (ht : ((initial state).run describer moves).tasks[position]? = some ⟨job, task⟩) :
    (∀ reply, task.reply? = some reply → reply = (job.run describer state).value.1) ∧
      ∀ more : List (Move α caches), Job.mostSteps ≤ more.countP (Move.isWork position) →
        ∃ task' : Task job.Reply,
          ((initial state).run describer (moves ++ more)).tasks[position]? = some ⟨job, task'⟩ ∧
            task'.reply? = some (job.run describer state).value.1 := by
  have hinv := inv_initial.run steady honest moves
  have htask : OnTrack describer state job task := hinv.tasks _ (List.mem_of_getElem? ht)
  refine ⟨fun reply hreply => htask.leadsTo.eq_of_reply? hreply, fun more hmore => ?_⟩
  obtain ⟨task', ht', hle⟩ := hinv.remaining_run steady honest ht more
  have htask' : OnTrack describer state job task' :=
    (hinv.run steady honest more).tasks _ (List.mem_of_getElem? ht')
  have hdone : task'.remaining (describer.reply state) = 0 := by
    have hfirst := htask.remaining
    omega
  have hrun : (initial state).run describer (moves ++ more) =
      ((initial state).run describer moves).run describer more := List.foldl_append
  exact ⟨task', hrun ▸ ht', htask'.leadsTo.reply?_eq hdone⟩

/-- One asset, whose model names one of the properties of the sample frame. -/
def sampleDirectory : Directory where
  assets := [("pump", .ok (some "m"))]
  models := [("m", .ok [⟨"a", "Speed"⟩])]

/-- Two jobs miss the same asset and ask for it both, and what they keep is cleared and dropped. -/
def sampleMoves : List (Move Float (Caches.entries true)) :=
  [.start (.flatten {} "pump" [Frame.sample Float]), .start (.describe (.asset "pump")), .work 0, .work 0, .work 1,
    .work 1, .clearAssets, .work 1, .work 0, .work 0, .passAssets "pump", .work 0, .work 0, .work 0, .work 0]

theorem replies_run_sample :
    let task : Task (List (Frame Float)) :=
      .running (.done (Frame.flattenEach ⟨[("a", "Speed")]⟩ {} [Frame.sample Float]))
    Directory.describer.Steady sampleDirectory ∧ (Caches.entries true).Honest ∧
      ((initial sampleDirectory).run Directory.describer sampleMoves).tasks[0]? =
        some ⟨.flatten {} "pump" [Frame.sample Float], task⟩ ∧
      task.reply? =
        some (Frame.flattenAll Directory.describer {} "pump" [Frame.sample Float] sampleDirectory).value.1 := by
  intro task
  have steady := Directory.steady_describer sampleDirectory
  have honest := Caches.honest_entries true
  have ht : ((initial sampleDirectory).run Directory.describer sampleMoves).tasks[0]? =
      some ⟨.flatten {} "pump" [Frame.sample Float], task⟩ := rfl
  have hreply := (replies_run Directory.describer sampleDirectory steady (Caches.entries true) honest sampleMoves 0
    (.flatten {} "pump" [Frame.sample Float]) task ht).1 _ rfl
  exact ⟨steady, honest, ht, congrArg some hreply⟩

end World

end Unnest
