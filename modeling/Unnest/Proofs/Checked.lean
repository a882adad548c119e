import Unnest.Checked

/-!
# Computations that find what they look up

`Refines` says that a `Checked` computation does not fail, that it reports the same as a computation that looks
nothing up, and that the two values are related. It is passed on along the steps of the computations (`Refines.bind`)
and along the items of a list (`Refines.foldlM`).
-/

namespace Unnest

namespace Checked
variable {β γ β' γ' ι : Type}

/-- A checked computation finds all that it looks up, reports what another one reports, and gives a value that is
related to its value. -/
def Refines (R : β → γ → Prop) (x : Checked β) (y : Logged γ) : Prop :=
  ∃ b, x.run = ⟨some b, y.events⟩ ∧ R b y.value

theorem look_some_bind (b : β) (f : β → Checked γ) : look (some b) >>= f = f b := by
  apply OptionT.ext
  rw [OptionT.run_bind]
  exact pure_bind (some b) _

/-- A computation gives a value only after one that gave a value. -/
theorem exists_of_bind {x : Checked β} {f : β → Checked γ} {c : γ} (h : (x >>= f).run.value = some c) :
    ∃ b, x.run.value = some b ∧ (f b).run.value = some c := by
  rw [OptionT.run_bind] at h
  change (x.run.value.elim (Pure.pure none) fun b => (f b).run).value = some c at h
  rcases hx : x.run.value with _ | b
  · rw [hx] at h
    cases h
  · rw [hx] at h
    exact ⟨b, rfl, h⟩

namespace Refines
variable {R : β → γ → Prop} {S : β' → γ' → Prop} {x : Checked β} {y : Logged γ}

theorem pure {b : β} {c : γ} (h : R b c) : Refines R (pure b) (pure c) := ⟨b, rfl, h⟩

theorem lift (y : Logged γ) : Refines (fun b c => b = y.value ∧ c = y.value) (OptionT.lift y) y :=
  ⟨y.value, Traced.ext rfl (List.append_nil _), rfl, rfl⟩

theorem mono {R' : β → γ → Prop} (h : Refines R x y) (hR : ∀ b, R b y.value → R' b y.value) : Refines R' x y := by
  obtain ⟨b, hx, hb⟩ := h
  exact ⟨b, hx, hR b hb⟩

theorem bind {f : β → Checked β'} {g : γ → Logged γ'} (h : Refines R x y)
    (hf : ∀ b c, R b c → Refines S (f b) (g c)) : Refines S (x >>= f) (y >>= g) := by
  obtain ⟨b, hx, hb⟩ := h
  obtain ⟨b', hy, hb'⟩ := hf b y.value hb
  refine ⟨b', ?_, hb'⟩
  rw [OptionT.run_bind, hx]
  show (⟨some b, y.events⟩ : Logged (Option β)) >>= (fun found => _) = _
  refine Traced.ext ?_ ?_
  · show ((f b).run).value = some b'
    rw [hy]
  · show y.events ++ ((f b).run).events = y.events ++ (g y.value).events
    rw [hy]

theorem look_bind {b : β} {found : Option β} (hb : found = some b) {f : β → Checked β'} {z : Logged γ'}
    (h : Refines S (f b) z) : Refines S (Checked.look found >>= f) z := by
  obtain ⟨b', hf, hb'⟩ := h
  refine ⟨b', ?_, hb'⟩
  rw [hb, OptionT.run_bind]
  exact hf

theorem foldlM {f : β → ι → Checked β} {g : γ → ι → Logged γ} {items : List ι}
    (hf : ∀ item ∈ items, ∀ b c, R b c → Refines R (f b item) (g c item)) {b : β} {c : γ} (h : R b c) :
    Refines R (items.foldlM f b) (items.foldlM g c) := by
  induction items generalizing b c with
  | nil => exact .pure h
  | cons item items ih =>
    rw [List.foldlM_cons, List.foldlM_cons]
    exact (hf item List.mem_cons_self b c h).bind fun b' c' hb' =>
      ih (fun i hi => hf i (List.mem_cons_of_mem _ hi)) hb'

end Refines
end Checked

end Unnest
