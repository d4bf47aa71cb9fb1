import Rewind.Performance

/-!
# Execution

- `Machine.step` executes the instruction under the pointer and `Machine.undo` takes the last one back;
- `Machine.runFor` steps until the pointer is past the end, a step fails or a number of steps is used up
  (`runFor_zero`, `runFor_succ`);
- `Machine.runCapped` and `Machine.runWithin?` run with a limit on the steps and without one. The second has an
  allowance of steps and answers nothing when it does not suffice.
-/

namespace Rewind.Machine

open Rewind.Action

/--
Executes the instruction under the pointer. At either end of the program there is none; then the pointer moves on.
An instruction enters the history after all of its effect.
-/
def step : Action (Option Item) := do
  match (← get).current? with
  | none =>
    advance
    return none
  | some item =>
    item.forward
    modify fun m => { m with history := item :: m.history }
    emit (.executed item.symbol (← get).pointer)
    return some item

/-- Takes back the instruction executed last. It leaves the history first, whatever comes of its effect. -/
def undo : Action Item := do
  let m ← get
  match m.history with
  | [] => fail .noHistory
  | item :: rest =>
    set { m with history := rest }
    item.inverse
    emit (.undid item.symbol (← get).pointer)
    return item

/-- Runs after some `events`, newest first, for at most so many steps. -/
def runFrom : Nat → List Event → Machine → Outcome Unit
  | 0, events, m => ⟨.ok (), m, events.reverse⟩
  | n + 1, events, m =>
    if m.pointer = .finish then ⟨.ok (), m, events.reverse⟩
    else
      match step m with
      | ⟨.ok _, m, new⟩ => runFrom n (new.reverse ++ events) m
      | ⟨.error fault, m, new⟩ => ⟨.error fault, m, (new.reverse ++ events).reverse⟩

/-- Steps at most `n` times, until the pointer is past the end or a step fails. -/
def runFor (n : Nat) : Action Unit := runFrom n []

/-- The events before a run only come before its own. -/
theorem runFrom_eq : ∀ (n : Nat) (events : List Event) (m : Machine),
    runFrom n events m = ⟨(runFor n m).result, (runFor n m).machine, events.reverse ++ (runFor n m).events⟩
  | 0, events, m => by simp [runFor, runFrom]
  | n + 1, events, m => by
    simp only [runFor, runFrom]
    split
    · simp
    · obtain ⟨r, m', new⟩ := step m
      cases r with
      | ok item => simp [runFrom_eq n (new.reverse ++ events), runFrom_eq n new.reverse]
      | error fault => simp

theorem runFor_zero : runFor 0 = pure () := rfl

/-- A run steps until the pointer is past the end. -/
theorem runFor_succ (n : Nat) :
    runFor (n + 1) = (do
      if (← get).pointer = .finish then pure ()
      else do
        let _ ← step
        runFor n) := by
  funext m
  rw [bind_apply, get_apply, Outcome.andThen_ok]
  by_cases h : m.pointer = .finish
  · simp [runFor, runFrom, h]
  · rw [if_neg h, bind_apply]
    show runFrom (n + 1) [] m = _
    simp only [runFrom, if_neg h]
    obtain ⟨r, m', new⟩ := step m
    cases r with
    | ok item => simp [runFrom_eq n new.reverse]
    | error fault => simp

/-- Runs for at most `cap` steps and gives the output. A negative cap allows none. -/
def runCapped (cap : Int) : Action (List Cell) := do
  runFor cap.toNat
  return (← get).output

/-- The run without a limit: what it leaves behind, provided that `allowance` steps bring it to its end or a fault. -/
def runWithin? (allowance : Nat) (m : Machine) : Option (Outcome (List Cell)) :=
  let o := runCapped allowance m
  match o.result with
  | .ok _ => if o.machine.pointer = .finish then some o else none
  | .error _ => some o

end Rewind.Machine
