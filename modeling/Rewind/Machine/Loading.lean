import Rewind.Action

/-!
# Loading and starting over

- `Machine.load` replaces the program and nothing else, except that a pointer on an index which the new program
  does not have moves to the end (`load_apply`);
- `Machine.restart` puts everything but the program back to where the machine was made (`restart_apply`).
-/

namespace Rewind.Machine

open Rewind.Action

/-- Replaces the program. -/
def load (program : List Item) : Action Unit := do
  let m ← get
  set { m with program := program, pointer := m.pointer.onto program.length }
  match m.pointer.stranded? program.length with
  | some i => emit (.stranded i program.length)
  | none => pure ()
  emit (.loaded program.length)

/-- Puts the machine back to the start. -/
def restart : Action Unit := do
  modify reset
  emit (.tape .clear)

/-- What is told when a program of `n` instructions is loaded under a pointer. -/
def loadEvents (n : Nat) (p : Pointer Nat) : List Event :=
  match p.stranded? n with
  | some i => [.stranded i n, .loaded n]
  | none => [.loaded n]

theorem load_apply (program : List Item) (m : Machine) :
    load program m =
      ⟨.ok (), { m with program := program, pointer := m.pointer.onto program.length },
        loadEvents program.length m.pointer⟩ := by
  simp only [load, loadEvents, bind_apply, get_apply, set_apply, Outcome.andThen_ok, List.nil_append]
  cases m.pointer.stranded? program.length <;> simp

theorem restart_apply (m : Machine) : restart m = ⟨.ok (), m.reset, [.tape .clear]⟩ := rfl

end Rewind.Machine
