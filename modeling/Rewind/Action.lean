import Rewind.Event
import Rewind.Machine

/-!
# Actions

An `Action` works on a machine: it succeeds with a value or stops at a fault, and either way it leaves a machine and
a list of events behind. A fault keeps what was done before it.

- `Action` is a monad (`LawfulMonad`), with the machine as its state;
- `apply` lemmas (`pure_apply`, `bind_apply`, `get_apply`, …) compute an action step by step on a machine.
-/

namespace Rewind

/-- What an action leaves behind. -/
structure Outcome (α : Type) where
  result : Except Fault α
  machine : Machine
  /-- What happened, oldest first. -/
  events : List Event

/-- Work on a machine that may stop at a fault. -/
def Action (α : Type) := Machine → Outcome α

namespace Outcome

/-- Goes on with `f` after success; a fault stops the work. -/
def andThen {α β : Type} (o : Outcome α) (f : α → Action β) : Outcome β :=
  match o.result with
  | .ok a =>
    let next := f a o.machine
    ⟨next.result, next.machine, o.events ++ next.events⟩
  | .error fault => ⟨.error fault, o.machine, o.events⟩

@[simp] theorem andThen_ok {α β : Type} (a : α) (m : Machine) (es : List Event) (f : α → Action β) :
    andThen ⟨.ok a, m, es⟩ f = ⟨(f a m).result, (f a m).machine, es ++ (f a m).events⟩ := rfl

@[simp] theorem andThen_error {α β : Type} (fault : Fault) (m : Machine) (es : List Event) (f : α → Action β) :
    andThen ⟨.error fault, m, es⟩ f = ⟨.error fault, m, es⟩ := rfl

/-- Work in two parts fails in the first or in the second. -/
theorem result_andThen_eq_error_iff {α β : Type} {o : Outcome α} {f : α → Action β} {fault : Fault} :
    (o.andThen f).result = .error fault ↔
      o.result = .error fault ∨ ∃ a, o.result = .ok a ∧ (f a o.machine).result = .error fault := by
  obtain ⟨result, m, es⟩ := o
  cases result <;> simp

end Outcome

namespace Action

instance : Monad Action where
  pure a := fun m => ⟨.ok a, m, []⟩
  bind x f := fun m => (x m).andThen f

instance : MonadStateOf Machine Action where
  get := fun m => ⟨.ok m, m, []⟩
  set m := fun _ => ⟨.ok (), m, []⟩
  modifyGet f := fun m => ⟨.ok (f m).1, (f m).2, []⟩

/-- Stops at a fault. -/
def fail {α : Type} (fault : Fault) : Action α := fun m => ⟨.error fault, m, []⟩

/-- The value of a computation that may fail. -/
def ofExcept {α : Type} (x : Except Fault α) : Action α := fun m => ⟨x, m, []⟩

/-- Tells that something happened. -/
def emit (event : Event) : Action Unit := fun m => ⟨.ok (), m, [event]⟩

/-! ## Actions on a machine -/

section Apply

variable {α β : Type} (m : Machine)

@[simp] theorem pure_apply (a : α) : (pure a : Action α) m = ⟨.ok a, m, []⟩ := rfl

@[simp] theorem bind_apply (x : Action α) (f : α → Action β) : (x >>= f) m = (x m).andThen f := rfl

@[simp] theorem get_apply : (get : Action Machine) m = ⟨.ok m, m, []⟩ := rfl

@[simp] theorem set_apply (n : Machine) : (set n : Action PUnit) m = ⟨.ok (), n, []⟩ := rfl

@[simp] theorem modify_apply (f : Machine → Machine) : (modify f : Action PUnit) m = ⟨.ok (), f m, []⟩ := rfl

@[simp] theorem fail_apply (fault : Fault) : (fail fault : Action α) m = ⟨.error fault, m, []⟩ := rfl

@[simp] theorem ofExcept_apply (x : Except Fault α) : ofExcept x m = ⟨x, m, []⟩ := rfl

@[simp] theorem emit_apply (event : Event) : emit event m = ⟨.ok (), m, [event]⟩ := rfl

end Apply

theorem map_apply {α β : Type} (f : α → β) (x : Action α) (m : Machine) :
    (f <$> x) m = ⟨(x m).result.map f, (x m).machine, (x m).events⟩ := by
  show (x m).andThen (fun a => pure (f a)) = _
  obtain ⟨r, n, es⟩ := x m
  cases r <;> simp [Except.map]

instance : LawfulMonad Action :=
  LawfulMonad.mk' Action
    (fun x => by
      funext m
      rw [map_apply]
      obtain ⟨r, n, es⟩ := x m
      cases r <;> rfl)
    (fun a f => by
      funext m
      simp)
    (fun x f g => by
      funext m
      simp only [bind_apply]
      obtain ⟨r, n, es⟩ := x m
      cases r with
      | error fault => rfl
      | ok a =>
        simp only [Outcome.andThen_ok, bind_apply]
        obtain ⟨r', n', es'⟩ := f a n
        cases r' <;> simp)

end Action

end Rewind
