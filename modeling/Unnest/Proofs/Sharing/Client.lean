import Unnest.Describe.Directory
import Unnest.Flatten

/-!
# Clients of a describer

A client asks one question after another until it has a result; what it asks next may depend on the answers.
The jobs that a describer is there for are such clients: asking it directly is one question, flattening frames
is at most two, and run over any describer they do what that describer and `Frame.flattenAll` do
(`Job.run_client`). Where the answers of a describer never change (`Describer.Steady`), the result of a client
is a function of the answers alone, `Client.value` (`Client.value_run`).
-/

namespace Unnest
variable {α β σ : Type}

/-- What a question is answered with, if it can be answered. -/
abbrev Call.Result : Call → Type
  | asset _ => Option String
  | model _ => List Property

namespace Describer

def answer (describer : Describer σ) : (call : Call) → Session σ (Answer call.Result)
  | .asset id => describer.asset id
  | .model id => describer.model id

def reply (describer : Describer σ) (state : σ) (call : Call) : Answer call.Result :=
  (describer.answer call state).value.1

def after (describer : Describer σ) (state : σ) (calls : List Call) : σ :=
  calls.foldl (fun state call => (describer.answer call state).value.2) state

theorem after_append_singleton (describer : Describer σ) (state : σ) (calls : List Call) (call : Call) :
    describer.after state (calls ++ [call]) = (describer.answer call (describer.after state calls)).value.2 := by
  rw [after, List.foldl_append]
  rfl

/-- From a state on, the answers do not depend on what was asked before. -/
def Steady (describer : Describer σ) (state : σ) : Prop :=
  ∀ calls call, describer.reply (describer.after state calls) call = describer.reply state call

end Describer

/-- A directory remembers what it was asked, which changes none of its answers. -/
theorem Directory.steady_describer (directory : Directory) : describer.Steady directory := by
  intro calls
  induction calls generalizing directory with
  | nil => exact fun _ => rfl
  | cons first calls ih =>
    intro call
    refine (ih (describer.after directory [first]) call).trans ?_
    cases first <;> cases call <;> rfl

/-- A computation that asks questions. -/
inductive Client (β : Type) where
  | done (result : Logged β)
  | report (event : Event) (rest : Client β)
  | ask (call : Call) (next : Answer call.Result → Client β)

namespace Client

def run (describer : Describer σ) : Client β → Session σ β
  | done result => StateT.lift result
  | report event rest => do
    Describer.report event
    rest.run describer
  | ask call next => do
    let answer ← describer.answer call
    (next answer).run describer

/-- The result of a client by the answers to its questions. -/
def value (answers : (call : Call) → Answer call.Result) : Client β → β
  | done result => result.value
  | report _ rest => rest.value answers
  | ask call next => (next (answers call)).value answers

/-- The most steps that a client can take over a cache: a question is looked up, asked and kept. -/
def length (answers : (call : Call) → Answer call.Result) : Client β → Nat
  | done _ => 0
  | report _ rest => rest.length answers + 1
  | ask call next => (next (answers call)).length answers + 3

theorem value_run {describer : Describer σ} {state : σ} (steady : describer.Steady state) (client : Client β)
    (calls : List Call) :
    (client.run describer (describer.after state calls)).value.1 = client.value (describer.reply state) := by
  -- the state moves on with every question, so the induction is over all of them
  induction client generalizing calls with
  | done result => rfl
  | report event rest ih => exact ih calls
  | ask call next ih =>
    have hnext := ih (describer.reply (describer.after state calls) call) (calls ++ [call])
    rw [Describer.after_append_singleton] at hnext
    refine hnext.trans ?_
    rw [steady calls call]
    rfl

/-- Goes on with the names that `Describer.modelNames` comes to. -/
def modelNames (modelId : String) (next : NameMap → Client β) : Client β :=
  ask (.model modelId) fun
    | .ok properties => next (NameMap.ofProperties properties)
    | .error error => report (.modelFailed modelId error) (next {})

def assetNames (assetId : String) (next : NameMap → Client β) : Client β :=
  ask (.asset assetId) fun
    | .ok (some modelId) =>
      if modelId.isEmpty then report (.noModel assetId) (next {})
      else report (.modelResolved assetId modelId) (modelNames modelId next)
    | .ok none => report (.noModel assetId) (next {})
    | .error error => report (.assetFailed assetId error) (next {})

def found (assetId : String) (next : NameMap → Client β) (names : NameMap) : Client β :=
  if names.isEmpty then report (.noNames assetId) (next names) else next names

def nameMap (assetId : String) (next : NameMap → Client β) : Client β :=
  let id := Text.trim assetId
  if id.isEmpty then found id next {} else assetNames id (found id next)

section
variable (describer : Describer σ) (next : NameMap → Client β)

theorem run_modelNames (modelId : String) :
    (modelNames modelId next).run describer =
      describer.modelNames modelId >>= fun names => (next names).run describer := by
  rw [modelNames, run, Describer.modelNames, bind_assoc]
  refine congrArg _ (funext fun answer => ?_)
  cases answer with
  | ok properties => rw [pure_bind]
  | error error => rw [run, bind_assoc, pure_bind]

theorem run_assetNames (assetId : String) :
    (assetNames assetId next).run describer =
      describer.assetNames assetId >>= fun names => (next names).run describer := by
  rw [assetNames, run, Describer.assetNames, bind_assoc]
  refine congrArg _ (funext fun answer => ?_)
  cases answer with
  | error error => rw [run, bind_assoc, pure_bind]
  | ok model =>
    cases model with
    | none => rw [run, bind_assoc, pure_bind]
    | some modelId =>
      dsimp only
      split
      · rw [run, bind_assoc, pure_bind]
      · rw [run, bind_assoc, run_modelNames]

theorem run_nameMap (assetId : String) :
    (nameMap assetId next).run describer =
      describer.nameMap assetId >>= fun names => (next names).run describer := by
  have hfound : ∀ names, (found (Text.trim assetId) next names).run describer =
      (do
        if names.isEmpty then Describer.report (.noNames (Text.trim assetId))
        return names) >>= fun names => (next names).run describer := by
    intro names
    rw [found]
    split
    · rw [run, bind_assoc]
      rfl
    · rfl
  rw [nameMap, Describer.nameMap]
  split
  · exact hfound {}
  · rw [run_assetNames, bind_assoc]
    exact congrArg _ (funext hfound)

end

section
variable {answers : (call : Call) → Answer call.Result} {next : NameMap → Client β} {n : Nat}

theorem length_modelNames_le (h : ∀ names, (next names).length answers ≤ n) (modelId : String) :
    (modelNames modelId next).length answers ≤ n + 4 := by
  rw [modelNames, length]
  refine Nat.add_le_add_right (m := n + 1) ?_ 3
  cases answers (.model modelId) with
  | ok properties => exact Nat.le_succ_of_le (h _)
  | error error => exact Nat.succ_le_succ (h {})

theorem length_assetNames_le (h : ∀ names, (next names).length answers ≤ n) (assetId : String) :
    (assetNames assetId next).length answers ≤ n + 8 := by
  have hnone : (next {}).length answers + 1 ≤ n + 5 := by
    have hnext := h {}
    omega
  rw [assetNames, length]
  refine Nat.add_le_add_right (m := n + 5) ?_ 3
  cases answers (.asset assetId) with
  | error error => exact hnone
  | ok model =>
    cases model with
    | none => exact hnone
    | some modelId =>
      dsimp only
      split
      · exact hnone
      · exact Nat.succ_le_succ (length_modelNames_le h modelId)

theorem length_nameMap_le (h : ∀ names, (next names).length answers ≤ n) (assetId : String) :
    (nameMap assetId next).length answers ≤ n + 9 := by
  have hfound : ∀ names, (found (Text.trim assetId) next names).length answers ≤ n + 1 := by
    intro names
    rw [found]
    split
    · exact Nat.succ_le_succ (h names)
    · exact Nat.le_succ_of_le (h names)
  rw [nameMap]
  split
  · have hnone := hfound {}
    omega
  · exact length_assetNames_le hfound _

end

def flatten [Quantity α] (options : Options) (assetId : String) (frames : List (Frame α)) :
    Client (List (Frame α)) :=
  report (.flattening assetId frames.length)
    (nameMap assetId fun names => done (Frame.flattenEach names options frames))

end Client

/-- What a describer is used for. -/
inductive Job (α : Type) where
  | describe (call : Call)
  | flatten (options : Options) (assetId : String) (frames : List (Frame α))

namespace Job

def Reply : Job α → Type
  | describe call => Answer call.Result
  | flatten _ _ _ => List (Frame α)

variable [Quantity α]

/-- Does a job with a describer that nobody else uses. -/
def run (describer : Describer σ) : (job : Job α) → Session σ job.Reply
  | describe call => describer.answer call
  | flatten options assetId frames => Frame.flattenAll describer options assetId frames

def client : (job : Job α) → Client job.Reply
  | describe call => .ask call fun answer => .done (pure answer)
  | flatten options assetId frames => .flatten options assetId frames

theorem run_client (describer : Describer σ) (job : Job α) : job.client.run describer = job.run describer := by
  cases job with
  | describe call => exact bind_pure (describer.answer call)
  | flatten options assetId frames =>
    show (Client.flatten options assetId frames).run describer = Frame.flattenAll describer options assetId frames
    rw [Client.flatten, Client.run, Client.run_nameMap]
    rfl

theorem value_client {describer : Describer σ} {state : σ} (steady : describer.Steady state) (job : Job α) :
    job.client.value (describer.reply state) = (job.run describer state).value.1 := by
  rw [← run_client]
  exact (Client.value_run steady job.client []).symm

/-- The most steps of a job over a cache: two questions and four reports. -/
def mostSteps : Nat := 10

theorem length_client_le (answers : (call : Call) → Answer call.Result) (job : Job α) :
    job.client.length answers ≤ mostSteps := by
  cases job with
  | describe call => exact (by decide : 3 ≤ mostSteps)
  | flatten options assetId frames =>
    exact Nat.succ_le_succ (Client.length_nameMap_le (fun _ => Nat.le_refl 0) assetId)

end Job

end Unnest
