import Rewind.Execution

/-!
# Traces

A trace is what is seen while an action is done again and again: a `Visit` after each time that it succeeded, up to
the first fault.

- `Trace.extend` does the action once more and `Trace.follow` at most `n` times;
- `Machine.traceSteps` and `Machine.traceUndos` follow steps and undos.
-/

namespace Rewind

/-- What is seen of a machine after an instruction. -/
structure Visit where
  /-- The symbol of the instruction, if there was one. -/
  symbol : Option String
  pointer : Pointer Nat
  cursor : Nat
  cell : Cell
  deriving DecidableEq

/-- What was seen so far, and where it has led. -/
structure Trace where
  /-- The visits, newest first. -/
  visits : List Visit
  fault : Option Fault
  machine : Machine
  /-- What happened, newest first. -/
  events : List Event

namespace Trace

/-- A trace that has not begun. -/
def begin (m : Machine) : Trace := ⟨[], none, m, []⟩

/-- What is seen of a machine after an instruction. -/
def visit (item : Option Item) (m : Machine) : Visit :=
  ⟨item.map Item.symbol, m.pointer, m.tape.cursor, m.tape.here⟩

/-- The trace after one more action. -/
def extend (act : Action (Option Item)) (t : Trace) : Trace :=
  let o := act t.machine
  let events := o.events.reverse ++ t.events
  match o.result with
  | .ok item => ⟨visit item o.machine :: t.visits, none, o.machine, events⟩
  | .error fault => ⟨t.visits, some fault, o.machine, events⟩

/-- The trace after at most `n` more actions. -/
def follow (act : Action (Option Item)) : Nat → Trace → Trace
  | 0, t => t
  | n + 1, t =>
    match t.fault with
    | some _ => t
    | none => follow act n (t.extend act)

end Trace

namespace Machine

/-- At most `n` steps from a machine. -/
def traceSteps (n : Nat) (m : Machine) : Trace := Trace.follow step n (.begin m)

/-- At most `n` undos from a machine. -/
def traceUndos (n : Nat) (m : Machine) : Trace := Trace.follow (some <$> undo) n (.begin m)

end Machine

end Rewind
