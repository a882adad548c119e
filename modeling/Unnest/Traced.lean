/-!
# Traced values

A traced value comes with the events that happened while it was computed, in order. Computing one after
another puts the events of the first before those of the second; this is a monad, and `value_bind` and
`events_bind` take it apart.
-/

namespace Unnest

/-- A value and the events that led to it. -/
structure Traced (ε α : Type) where
  value : α
  events : List ε := []
deriving DecidableEq

namespace Traced
variable {ε α β : Type}

instance : Monad (Traced ε) where
  pure a := { value := a }
  bind x f := let y := f x.value; { value := y.value, events := x.events ++ y.events }

/-- One event and nothing else. -/
def emit (event : ε) : Traced ε Unit := { value := (), events := [event] }

@[simp] theorem value_pure (a : α) : (pure a : Traced ε α).value = a := rfl

@[simp] theorem events_pure (a : α) : (pure a : Traced ε α).events = [] := rfl

@[simp] theorem value_bind (x : Traced ε α) (f : α → Traced ε β) :
    (x >>= f).value = (f x.value).value := rfl

@[simp] theorem events_bind (x : Traced ε α) (f : α → Traced ε β) :
    (x >>= f).events = x.events ++ (f x.value).events := rfl

@[simp] theorem value_emit (event : ε) : (emit event).value = () := rfl

@[simp] theorem events_emit (event : ε) : (emit event).events = [event] := rfl

@[ext] theorem ext {x y : Traced ε α} (hv : x.value = y.value) (he : x.events = y.events) : x = y := by
  cases x
  cases y
  simp_all

theorem bind_congr {x : Traced ε α} {f g : α → Traced ε β} (h : f x.value = g x.value) :
    x >>= f = x >>= g := by
  ext <;> simp [h]

instance : LawfulMonad (Traced ε) :=
  LawfulMonad.mk' (Traced ε)
    (fun x => by ext <;> simp [Functor.map])
    (fun a f => by ext <;> simp)
    (fun x f g => by ext <;> simp)

@[simp] theorem value_map (f : α → β) (x : Traced ε α) : (f <$> x).value = f x.value := rfl

@[simp] theorem events_map (f : α → β) (x : Traced ε α) : (f <$> x).events = x.events :=
  List.append_nil x.events

theorem value_mapM (f : α → Traced ε β) (xs : List α) :
    (xs.mapM f).value = xs.map fun a => (f a).value := by
  induction xs with
  | nil => rfl
  | cons a xs ih => simp [ih]

end Traced

end Unnest
