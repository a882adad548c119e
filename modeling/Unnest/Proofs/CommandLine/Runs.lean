import Unnest.CommandLine.Run
import Unnest.Proofs.CommandLine.Stages
import Unnest.Proofs.Sharing.Sequential

/-!
# Runs over a tree of files

A run over a tree goes through its inputs one after another and counts those that fail (`outcomes`,
`flattenInputs_apply`). What it hands on from one to the next is the tree and the cache. The cache makes no
difference as long as it holds true answers, which it does at first and which every input keeps
(`flattenInput_cached`), so what becomes of the inputs is a matter of the tree alone (`outcomes_cached`).
-/

namespace Unnest.CommandLine
variable {σ : Type}

/-- What becomes of inputs one after another, and the tree that they leave. -/
def outcomes (describer : Describer σ) (options : Options) (arguments : Arguments) :
    List String → σ → FileTree → List (Except InputError Unit) × FileTree
  | [], _, tree => ([], tree)
  | input :: inputs, state, tree =>
    let ((outcome, state), tree) := (flattenInput describer options arguments input state : StateM FileTree _) tree
    let (rest, tree) := outcomes describer options arguments inputs state tree
    (outcome :: rest, tree)

/-- The number of failures. -/
def failures (outcomes : List (Except InputError Unit)) : Nat := outcomes.countP fun outcome => !outcome.isOk

theorem failures_ok (rest : List (Except InputError Unit)) : failures (.ok () :: rest) = failures rest :=
  List.countP_cons_of_neg (by decide)

theorem failures_error (error : InputError) (rest : List (Except InputError Unit)) :
    failures (.error error :: rest) = failures rest + 1 :=
  List.countP_cons_of_pos rfl

theorem flattenInputs_apply (describer : Describer σ) (options : Options) (arguments : Arguments)
    (inputs : List String) (state : σ) (tree : FileTree) :
    (flattenInputs describer options arguments inputs state : StateM FileTree Nat) tree =
      (failures (outcomes describer options arguments inputs state tree).1,
        (outcomes describer options arguments inputs state tree).2) := by
  induction inputs generalizing state tree with
  | nil => rfl
  | cons input inputs ih =>
    rw [flattenInputs, step_apply, outcomes]
    rcases (flattenInput describer options arguments input state : StateM FileTree _) tree with ⟨⟨outcome, state'⟩, left⟩
    cases outcome with
    | ok done =>
      show (0 + ((flattenInputs describer options arguments inputs state' : StateM FileTree Nat) left).1,
        ((flattenInputs describer options arguments inputs state' : StateM FileTree Nat) left).2) = _
      rw [ih, Nat.zero_add]
      exact Prod.ext (failures_ok _).symm rfl
    | error error =>
      show (1 + ((flattenInputs describer options arguments inputs state' : StateM FileTree Nat) left).1,
        ((flattenInputs describer options arguments inputs state' : StateM FileTree Nat) left).2) = _
      rw [ih, Nat.add_comm]
      exact Prod.ext (failures_error error _).symm rfl

section
variable {describer : Describer σ} {start : σ} {state : Cache × σ}

theorem flattenInput_cached (steady : describer.Steady start) (consistent : describer.Consistent start state)
    (options : Options) (arguments : Arguments) (input : String) (tree : FileTree) :
    let flatten frames := (Frame.flattenAll describer options arguments.assetId frames start).value.1
    let result := (flattenInput describer.cached options arguments input state : StateM FileTree _) tree
    (result.1.1, result.2) = settle arguments flatten input tree ∧ describer.Consistent start result.1.2 := by
  intro flatten result
  have hresult : result = _ := flattenInput_apply describer.cached options arguments input state tree
  rw [hresult, settle, deliver]
  cases held tree input with
  | error error => exact ⟨rfl, consistent⟩
  | ok frames =>
    have hjob := Job.run_cached steady consistent (.flatten options arguments.assetId frames)
    have hvalue : (Frame.flattenAll describer.cached options arguments.assetId frames state).value.1 =
        flatten frames := hjob.1
    have hstate : describer.Consistent start
        (Frame.flattenAll describer.cached options arguments.assetId frames state).value.2 := hjob.2
    dsimp only
    rw [hvalue]
    exact ⟨rfl, hstate⟩

/-- As long as the cache holds true answers, inputs do not depend on what it holds. -/
theorem outcomes_cached (steady : describer.Steady start) (consistent : describer.Consistent start state)
    (options : Options) (arguments : Arguments) (inputs : List String) (tree : FileTree) :
    outcomes describer.cached options arguments inputs state tree =
      settleAll arguments (fun frames => (Frame.flattenAll describer options arguments.assetId frames start).value.1)
        inputs tree := by
  induction inputs generalizing state tree with
  | nil => rfl
  | cons input inputs ih =>
    obtain ⟨hsettle, hstate⟩ := flattenInput_cached steady consistent options arguments input tree
    rw [outcomes, settleAll, ← hsettle]
    exact congrArg (fun rest : List (Except InputError Unit) × FileTree => (_ :: rest.1, rest.2)) (ih hstate _)

end

/-- The tree when a run comes to its inputs. -/
def logged (settings : Settings) (day : String) (tree : FileTree) : FileTree :=
  ((startLog settings.log day : StateM FileTree Bool) tree).2

/-- How the settings of a run flatten frames, as long as the catalog answers. -/
def flattened (settings : Settings) (arguments : Arguments) (frames : List (Frame Float)) : List (Frame Float) :=
  (Frame.flattenAll settings.catalog.describer settings.options arguments.assetId frames ()).value.1

theorem runWith_apply (settings : Settings) (day : String) (arguments : Arguments) (tree : FileTree) :
    (runWith settings day arguments : StateM FileTree Outcome) tree =
      match (startLog settings.log day : StateM FileTree Bool) tree,
        Cache.ofLimits? settings.lifetime settings.capacity with
      | (false, base), _ => (.broken .logFile, base)
      | (true, base), none => (.broken .cacheLifetime, base)
      | (true, base), some _ =>
        let (outcomes, left) := settleAll arguments (flattened settings arguments) arguments.inputs base
        (.complete arguments.inputs.length (failures outcomes), left) := by
  rw [runWith, step_apply]
  rcases (startLog settings.log day : StateM FileTree Bool) tree with ⟨_ | _, base⟩
  · rfl
  · cases hcache : Cache.ofLimits? settings.lifetime settings.capacity with
    | none => rfl
    | some cache =>
      have hinputs := flattenInputs_apply settings.catalog.describer.cached settings.options arguments arguments.inputs
        (cache, ()) base
      rw [outcomes_cached settings.catalog.steady_describer
        (settings.catalog.describer.consistent_ofLimits? () hcache)] at hinputs
      dsimp only
      rw [if_neg (by decide), step_apply, step_apply]
      have hreport : ((FileAccess.report (.started arguments.inputs.length) : StateM FileTree Unit) base).2 = base := rfl
      rw [hreport, hinputs]
      dsimp only
      split <;> rfl

theorem failures_eq_zero {outcomes : List (Except InputError Unit)} :
    failures outcomes = 0 ↔ ∀ outcome ∈ outcomes, outcome = .ok () := by
  rw [failures, List.countP_eq_zero]
  refine forall₂_congr fun outcome _ => ?_
  cases outcome with
  | ok done => exact iff_of_true nofun rfl
  | error error => exact iff_of_false (fun h => h rfl) nofun

/-- A run that has been through all its inputs has counted those that fail. -/
theorem runWith_complete {settings : Settings} {day : String} {arguments : Arguments} {tree left : FileTree}
    {inputs failed : Nat}
    (h : (runWith settings day arguments : StateM FileTree Outcome) tree = (.complete inputs failed, left)) :
    let settled := settleAll arguments (flattened settings arguments) arguments.inputs (logged settings day tree)
    failed = failures settled.1 ∧ left = settled.2 := by
  rw [runWith_apply] at h
  rw [logged]
  cases hlog : (startLog settings.log day : StateM FileTree Bool) tree with
  | mk started base =>
    rw [hlog] at h
    cases started with
    | false => cases h
    | true =>
      cases hcache : Cache.ofLimits? settings.lifetime settings.capacity with
      | none =>
        rw [hcache] at h
        cases h
      | some cache =>
        rw [hcache] at h
        cases h
        exact ⟨rfl, rfl⟩

end Unnest.CommandLine
