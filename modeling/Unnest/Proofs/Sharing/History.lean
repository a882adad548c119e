import Unnest.Proofs.Sharing.Sequential

/-!
# What a caching describer remembers

Over an inner describer that may change its answers, the answers of a caching describer are settled by its
history: a question is answered from the cache exactly if it was asked, passed on and answered since the caches
were cleared, and then with that answer; any other question is passed on once (`Caching.remembers`). The inner
describer is given a list in which it notes what it is asked, so that the questions passed on can be counted.
`Caching.Inv` ties the cache to the history, one operation at a time.
-/

namespace Unnest
variable {σ : Type}

namespace Cache

def find? (cache : Cache) : (call : Call) → Option call.Result
  | .asset id => cache.asset? id
  | .model id => cache.model? id

def keep (cache : Cache) : (call : Call) → call.Result → Cache
  | .asset id, model => cache.keepAsset id model
  | .model id, properties => cache.keepModel id properties

variable {cache : Cache} {call other : Call}

@[simp] theorem keeps_keep (result : call.Result) : (cache.keep call result).keeps = cache.keeps := by
  cases call <;> simp only [keep, keepAsset, keepModel] <;> split <;> rfl

theorem keep_eq_self (h : cache.keeps = false) (result : call.Result) : cache.keep call result = cache := by
  cases call <;> simp [keep, keepAsset, keepModel, h]

theorem find?_keep_self (h : cache.keeps = true) (result : call.Result) :
    (cache.keep call result).find? call = some result := by
  cases call <;> simp [keep, keepAsset, keepModel, find?, asset?, model?, h, Entries.get?_put]

/-- Answers for assets and answers for models are kept apart, whatever their identifiers. -/
theorem find?_keep_ne (hne : call ≠ other) (result : call.Result) :
    (cache.keep call result).find? other = cache.find? other := by
  by_cases h : cache.keeps
  · cases call with
    | asset id =>
      cases other with
      | asset id' =>
        have hid : id ≠ id' := fun he => hne (he ▸ rfl)
        simp [keep, keepAsset, find?, asset?, h, Entries.get?_put, hid]
      | model id' => simp [keep, keepAsset, find?, model?, h]
    | model id =>
      cases other with
      | asset id' => simp [keep, keepModel, find?, asset?, h]
      | model id' =>
        have hid : id ≠ id' := fun he => hne (he ▸ rfl)
        simp [keep, keepModel, find?, model?, h, Entries.get?_put, hid]
  · rw [keep_eq_self (Bool.eq_false_iff.2 h)]

@[simp] theorem find?_clear : cache.clear.find? call = none := by
  cases call <;> rfl

theorem find?_of_ofLimits? {lifetime capacity : Nat} (h : ofLimits? lifetime capacity = some cache) :
    cache.find? call = none := by
  unfold ofLimits? at h
  split at h
  · cases h
  · obtain rfl := Option.some_inj.1 h
    cases call <;> rfl

theorem keeps_of_ofLimits? {lifetime capacity : Nat} (h : ofLimits? lifetime capacity = some cache) :
    cache.keeps = true ↔ 0 < lifetime ∧ 0 < capacity := by
  unfold ofLimits? at h
  split at h
  · cases h
  · obtain rfl := Option.some_inj.1 h
    simp [Nat.pos_iff_ne_zero]

end Cache

theorem Shared.state_keep {keeps : Bool} (shared : Shared σ (Caches.entries keeps)) (call : Call)
    (result : call.Result) : (shared.keep call result).state = (shared.state.1.keep call result, shared.inner) := by
  cases call <;> cases keeps <;> rfl

namespace Describer

/-- The describer with a list of the questions that it has been asked. -/
def noting (describer : Describer σ) : Describer (List Call × σ) where
  asset id := fun (calls, state) => do
    let (answer, state) ← describer.asset id state
    return (answer, calls ++ [.asset id], state)
  model id := fun (calls, state) => do
    let (answer, state) ← describer.model id state
    return (answer, calls ++ [.model id], state)

theorem answer_noting (describer : Describer σ) (call : Call) (calls : List Call) (state : σ) :
    (describer.noting.answer call (calls, state)).value =
      (describer.reply state call, calls ++ [call], describer.after state [call]) := by
  cases call <;> rfl

theorem answer_cached_eq (describer : Describer σ) (call : Call) (cache : Cache) (state : σ) :
    (describer.cached.answer call (cache, state)).value =
      match cache.find? call with
      | some result => (.ok result, cache, state)
      | none =>
        match describer.reply state call with
        | .ok result => (.ok result, cache.keep call result, describer.after state [call])
        | .error error => (.error error, cache, describer.after state [call]) := by
  let shared : Shared σ (Caches.entries cache.keeps) := ⟨state, cache.assets, cache.models⟩
  have hstate : shared.state = (cache, state) := rfl
  have hlookUp : shared.lookUp call = (cache.find? call, shared) := by cases call <;> rfl
  have hask : shared.ask describer call =
      (describer.reply state call, { shared with inner := describer.after state [call] }) := by
    cases call <;> rfl
  rw [← hstate, answer_cached, hlookUp]
  cases cache.find? call with
  | some result => rfl
  | none =>
    dsimp only
    rw [hask]
    cases describer.reply state call with
    | error error => rfl
    | ok result => exact congrArg (Prod.mk _) (Shared.state_keep _ call result)

end Describer

/-- What can be done with a caching describer, and what can happen to the inner one in between. -/
inductive Operation (σ : Type) where
  | ask (call : Call)
  | clear
  | change (change : σ → σ)

/-- What was seen of an operation: of a question, those that were passed on to the inner describer. -/
inductive Record where
  | asked (call : Call) (passedOn : List Call) (answer : Answer call.Result)
  | cleared
  | changed

/-- What comes of a question: the questions passed on, the answer, and what is left behind. -/
structure Asked (σ : Type) (call : Call) where
  passedOn : List Call
  answer : Answer call.Result
  cache : Cache
  state : σ

/-- A caching describer and its history. -/
structure Caching (σ : Type) where
  cache : Cache
  state : σ
  history : List Record := []

/-- Since the caches were cleared, a question was passed on and answered with a result. -/
def Remembered (call : Call) (result : call.Result) (history : List Record) : Prop :=
  ∃ before after, history = before ++ .asked call [call] (.ok result) :: after ∧ Record.cleared ∉ after

theorem not_remembered_nil {call : Call} {result : call.Result} : ¬ Remembered call result [] := by
  rintro ⟨before, after, h, -⟩
  exact List.cons_ne_nil _ _ (List.append_eq_nil_iff.1 h.symm).2

theorem remembered_append_singleton {call : Call} {result : call.Result} {history : List Record}
    {record : Record} : Remembered call result (history ++ [record]) ↔
      record = .asked call [call] (.ok result) ∨ record ≠ .cleared ∧ Remembered call result history := by
  constructor
  · rintro ⟨before, after, h, hafter⟩
    rcases List.eq_nil_or_concat after with rfl | ⟨after, last, rfl⟩
    · obtain ⟨-, hlast⟩ := List.append_inj' h rfl
      exact .inl (List.singleton_inj.1 hlast)
    · rw [List.concat_eq_append] at h hafter
      rw [← List.cons_append, ← List.append_assoc] at h
      obtain ⟨rfl, hlast⟩ := List.append_inj' h rfl
      obtain rfl := List.singleton_inj.1 hlast
      refine .inr ⟨fun hc => ?_, before, after, rfl, fun hm => hafter (List.mem_append_left _ hm)⟩
      exact hafter (List.mem_append_right _ (hc ▸ List.mem_singleton_self _))
  · rintro (rfl | ⟨hne, before, after, rfl, hafter⟩)
    · exact ⟨history, [], rfl, List.not_mem_nil⟩
    · refine ⟨before, after ++ [record], List.append_assoc _ _ _, fun hm => ?_⟩
      rcases List.mem_append.1 hm with hm | hm
      · exact hafter hm
      · exact hne (List.mem_singleton.1 hm).symm

namespace Caching
variable {describer : Describer σ} {caching : Caching σ}

def ask (describer : Describer σ) (caching : Caching σ) (call : Call) : Asked σ call :=
  let (answer, cache, passedOn, state) :=
    (describer.noting.cached.answer call (caching.cache, [], caching.state)).value
  { passedOn, answer, cache, state }

def perform (describer : Describer σ) (caching : Caching σ) : Operation σ → Caching σ
  | .ask call =>
    let asked := caching.ask describer call
    { cache := asked.cache, state := asked.state
      history := caching.history ++ [.asked call asked.passedOn asked.answer] }
  | .clear => { caching with cache := caching.cache.clear, history := caching.history ++ [.cleared] }
  | .change change =>
    { caching with state := change caching.state, history := caching.history ++ [.changed] }

def run (describer : Describer σ) (caching : Caching σ) (operations : List (Operation σ)) : Caching σ :=
  operations.foldl (perform describer) caching

/-- A question is answered from the cache, or it is passed on and answered, or it is passed on and fails. -/
theorem ask_cases (describer : Describer σ) (caching : Caching σ) (call : Call) :
    (∃ result, caching.cache.find? call = some result ∧
        caching.ask describer call = ⟨[], .ok result, caching.cache, caching.state⟩) ∨
      (caching.cache.find? call = none ∧ ∃ result, describer.reply caching.state call = .ok result ∧
        caching.ask describer call =
          ⟨[call], .ok result, caching.cache.keep call result, describer.after caching.state [call]⟩) ∨
      (caching.cache.find? call = none ∧ ∃ error, describer.reply caching.state call = .error error ∧
        caching.ask describer call =
          ⟨[call], .error error, caching.cache, describer.after caching.state [call]⟩) := by
  have hreply : describer.noting.reply ([], caching.state) call = describer.reply caching.state call :=
    congrArg Prod.fst (describer.answer_noting call [] caching.state)
  have hafter : describer.noting.after ([], caching.state) [call] =
      ([call], describer.after caching.state [call]) :=
    congrArg Prod.snd (describer.answer_noting call [] caching.state)
  rw [ask, Describer.answer_cached_eq, hreply, hafter]
  cases caching.cache.find? call with
  | some result => exact .inl ⟨result, rfl, rfl⟩
  | none =>
    cases describer.reply caching.state call with
    | ok result => exact .inr (.inl ⟨rfl, result, rfl, rfl⟩)
    | error error => exact .inr (.inr ⟨rfl, error, rfl, rfl⟩)

/-- What a cache that keeps answers finds is what the history remembers; one that does not finds nothing. -/
structure Inv (caching : Caching σ) : Prop where
  keeping : caching.cache.keeps = true → ∀ call result,
    caching.cache.find? call = some result ↔ Remembered call result caching.history
  idle : caching.cache.keeps = false → ∀ call, caching.cache.find? call = none

theorem inv_ofLimits? {lifetime capacity : Nat} {cache : Cache}
    (h : Cache.ofLimits? lifetime capacity = some cache) (state : σ) :
    (⟨cache, state, []⟩ : Caching σ).Inv := by
  refine ⟨fun _ call result => ?_, fun _ call => Cache.find?_of_ofLimits? h⟩
  rw [Cache.find?_of_ofLimits? h]
  exact ⟨nofun, fun hr => absurd hr not_remembered_nil⟩

theorem Inv.ask (h : caching.Inv) (call : Call) : (caching.perform describer (.ask call)).Inv := by
  have hother : ∀ {passedOn : List Call} {answer : Answer call.Result} {other : Call} {result : other.Result},
      Record.asked call passedOn answer ≠ .asked other [other] (.ok result) →
        (Remembered other result (caching.history ++ [.asked call passedOn answer]) ↔
          Remembered other result caching.history) := fun hne =>
    remembered_append_singleton.trans ⟨fun hr => (hr.resolve_left hne).2, fun hr => .inr ⟨nofun, hr⟩⟩
  rw [perform]
  rcases ask_cases describer caching call with ⟨found, hfind, hask⟩ | ⟨hfind, answered, -, hask⟩ |
    ⟨hfind, error, -, hask⟩ <;> rw [hask]
  · refine ⟨fun hkeeps other result => ?_, h.idle⟩
    have hrecord : Record.asked call [] (.ok found) ≠ .asked other [other] (.ok result) := by
      rintro ⟨⟩
    exact (h.keeping hkeeps other result).trans (hother hrecord).symm
  · refine ⟨fun hkeeps other result => ?_, fun hkeeps other => ?_⟩
    · dsimp only at hkeeps ⊢
      rw [Cache.keeps_keep] at hkeeps
      by_cases hcall : call = other
      · subst hcall
        -- the question was not remembered before
        have hnew : ¬ Remembered call result caching.history := fun hr => by
          rw [(h.keeping hkeeps call result).2 hr] at hfind
          cases hfind
        rw [Cache.find?_keep_self hkeeps, remembered_append_singleton]
        constructor
        · rintro ⟨⟩
          exact .inl rfl
        · rintro (hr | hr)
          · cases hr
            rfl
          · exact absurd hr.2 hnew
      · have hrecord : Record.asked call [call] (.ok answered) ≠ .asked other [other] (.ok result) := by
          rintro ⟨⟩
          exact hcall rfl
        rw [Cache.find?_keep_ne hcall, hother hrecord]
        exact h.keeping hkeeps other result
    · dsimp only at hkeeps ⊢
      rw [Cache.keeps_keep] at hkeeps
      rw [Cache.keep_eq_self hkeeps]
      exact h.idle hkeeps other
  · refine ⟨fun hkeeps other result => ?_, h.idle⟩
    have hrecord : Record.asked call [call] (.error error) ≠ .asked other [other] (.ok result) := by
      rintro ⟨⟩
    exact (h.keeping hkeeps other result).trans (hother hrecord).symm

theorem Inv.perform (h : caching.Inv) (operation : Operation σ) : (caching.perform describer operation).Inv := by
  cases operation with
  | ask call => exact h.ask call
  | clear =>
    refine ⟨fun _ call result => ?_, fun _ call => Cache.find?_clear⟩
    have hfind : (caching.perform describer .clear).cache.find? call = none := Cache.find?_clear
    rw [hfind]
    refine ⟨nofun, fun hr => ?_⟩
    rcases remembered_append_singleton.1 hr with hr | hr
    · cases hr
    · exact absurd rfl hr.1
  | change change =>
    refine ⟨fun hkeeps call result => (h.keeping hkeeps call result).trans ?_, h.idle⟩
    refine Iff.trans ?_ remembered_append_singleton.symm
    exact ⟨fun hr => .inr ⟨nofun, hr⟩, fun hr => (hr.resolve_left nofun).2⟩

theorem Inv.run (h : caching.Inv) (operations : List (Operation σ)) : (caching.run describer operations).Inv := by
  induction operations generalizing caching with
  | nil => exact h
  | cons operation operations ih => exact ih (h.perform operation)

theorem keeps_run (describer : Describer σ) (operations : List (Operation σ)) :
    (caching.run describer operations).cache.keeps = caching.cache.keeps := by
  induction operations generalizing caching with
  | nil => rfl
  | cons operation operations ih =>
    refine ih.trans ?_
    cases operation with
    | ask call =>
      rw [perform]
      rcases ask_cases describer caching call with ⟨_, _, hask⟩ | ⟨_, _, _, hask⟩ | ⟨_, _, _, hask⟩ <;> rw [hask]
      exact Cache.keeps_keep _
    | clear => rfl
    | change change => rfl

/-- After any operations, a question is answered from the cache exactly if it was passed on and answered since
the caches were cleared, and then with that answer. Otherwise, and always if the cache keeps nothing, it is
passed on once and the answer of the inner describer comes back. A failure leaves the cache as it is. -/
theorem remembers (describer : Describer σ) (state : σ) (lifetime capacity : Nat) (cache : Cache)
    (hcache : Cache.ofLimits? lifetime capacity = some cache) (operations : List (Operation σ)) (call : Call) :
    let caching := (⟨cache, state, []⟩ : Caching σ).run describer operations
    let asked := caching.ask describer call
    (0 < lifetime ∧ 0 < capacity → ∀ result,
        asked.passedOn = [] ∧ asked.answer = .ok result ↔ Remembered call result caching.history) ∧
      ((lifetime = 0 ∨ capacity = 0) ∨ (∀ result, ¬ Remembered call result caching.history) →
        asked.passedOn = [call] ∧ asked.answer = describer.reply caching.state call ∧
          asked.state = describer.after caching.state [call]) ∧
      (asked.passedOn = [] → asked.cache = caching.cache ∧ asked.state = caching.state) ∧
      ∀ error, asked.answer = .error error → asked.cache = caching.cache := by
  intro caching asked
  have hinv : caching.Inv := (inv_ofLimits? hcache state).run operations
  have hkeeps : caching.cache.keeps = true ↔ 0 < lifetime ∧ 0 < capacity := by
    rw [keeps_run]
    exact Cache.keeps_of_ofLimits? hcache
  -- a question that is passed on was not found
  have hpassed : caching.cache.find? call = none → 0 < lifetime ∧ 0 < capacity → ∀ (answer : Answer call.Result) result,
      [call] = [] ∧ answer = .ok result ↔ Remembered call result caching.history := by
    intro hfind hlimits answer result
    rw [← hinv.keeping (hkeeps.2 hlimits), hfind]
    exact ⟨fun h => absurd h.1 (List.cons_ne_nil _ _), nofun⟩
  rcases ask_cases describer caching call with ⟨found, hfind, hask⟩ | ⟨hfind, answered, hreply, hask⟩ |
    ⟨hfind, error, hreply, hask⟩ <;> rw [show asked = _ from hask]
  · have hlimits : 0 < lifetime ∧ 0 < capacity := by
      rw [← hkeeps]
      by_contra hidle
      rw [hinv.idle (Bool.eq_false_iff.2 hidle)] at hfind
      cases hfind
    have hremembered : Remembered call found caching.history := (hinv.keeping (hkeeps.2 hlimits) call found).1 hfind
    refine ⟨fun _ result => ?_, ?_, fun _ => ⟨rfl, rfl⟩, fun error _ => rfl⟩
    · rw [← hinv.keeping (hkeeps.2 hlimits), hfind, Option.some_inj, Except.ok.injEq]
      exact and_iff_right rfl
    · rintro ((rfl | rfl) | hnone)
      · exact absurd hlimits.1 (Nat.lt_irrefl 0)
      · exact absurd hlimits.2 (Nat.lt_irrefl 0)
      · exact absurd hremembered (hnone found)
  · exact ⟨fun hlimits result => hpassed hfind hlimits _ result, fun _ => ⟨rfl, hreply.symm, rfl⟩, nofun, nofun⟩
  · exact ⟨fun hlimits result => hpassed hfind hlimits _ result, fun _ => ⟨rfl, hreply.symm, rfl⟩, nofun,
      fun _ _ => rfl⟩

/-- That an asset has no model is remembered although the directory changes, and not mixed up with what is known
of a model of the same identifier. -/
def sampleOperations : List (Operation Directory) :=
  [.ask (.asset "pump"), .clear, .ask (.asset "pump"), .ask (.model "pump"),
    .change fun d => { d with
      assets := [("pump", .ok (some "m"))], models := [("pump", .ok [⟨"a", "Speed"⟩])] },
    .ask (.model "pump")]

theorem history_sample :
    ((⟨Cache.standard, { assets := [("pump", .ok none)] }, []⟩ : Caching Directory).run
      Directory.describer sampleOperations).history =
        [.asked (.asset "pump") [.asset "pump"] (.ok none), .cleared] ++
          .asked (.asset "pump") [.asset "pump"] (.ok none) ::
            [.asked (.model "pump") [.model "pump"] (.error (.modelNotFound "pump")), .changed,
              .asked (.model "pump") [.model "pump"] (.ok [⟨"a", "Speed"⟩])] := by
  rfl

theorem remembers_sample :
    let start : Caching Directory := ⟨Cache.standard, { assets := [("pump", .ok none)] }, []⟩
    let caching := start.run Directory.describer sampleOperations
    Cache.ofLimits? Cache.defaultLifetime Cache.defaultCapacity = some Cache.standard ∧
      Remembered (.asset "pump") none caching.history ∧
      (caching.ask Directory.describer (.asset "pump")).passedOn = [] ∧
      (caching.ask Directory.describer (.asset "pump")).answer = .ok none := by
  intro start caching
  have hcache : Cache.ofLimits? Cache.defaultLifetime Cache.defaultCapacity = some Cache.standard := rfl
  have hremembered : Remembered (.asset "pump") none caching.history := ⟨_, _, history_sample, by simp⟩
  have hrecall := remembers Directory.describer start.state _ _ _ hcache sampleOperations (.asset "pump")
  obtain ⟨hpassedOn, hanswer⟩ := (hrecall.1 ⟨by decide, by decide⟩ none).2 hremembered
  exact ⟨hcache, hremembered, hpassedOn, hanswer⟩

end Caching

end Unnest
