import Rewind.Pointer
import Rewind.Program
import Rewind.Tape

/-!
# Machines

- `Machine`, the state of a machine at work, with the stacks kept newest first; `Machine.start` is a machine at the
  start of a program and `Machine.reset` puts a machine back there;
- `Machine.current?`, the instruction under the pointer;
- `Machine.WellFormed` says that the pointer is a position over the program;
- `Snapshot`, the part of the state that is compared and shown.
-/

namespace Rewind

/-- The state of a machine. -/
structure Machine where
  program : List Item
  /-- The input that the machine was made with. -/
  staged : List Cell
  tape : Tape
  pointer : Pointer Nat
  /-- The instructions executed and not undone, newest first. -/
  history : List Item
  /-- The output, newest byte first. -/
  emitted : List Cell
  /-- The input that is still pending. -/
  input : List Cell
  /-- The cells that input has replaced, newest first. -/
  overwritten : List Cell

/-- What is compared and shown of a machine. -/
structure Snapshot where
  cells : List Cell
  cursor : Nat
  pointer : Pointer Nat
  output : List Cell
  input : List Cell
  historyLength : Nat
  deriving DecidableEq

namespace Machine

/-- A machine at the start of a program. -/
def start (program : List Item) (staged : List Cell) : Machine where
  program := program
  staged := staged
  tape := .blank
  pointer := .start
  history := []
  emitted := []
  input := staged
  overwritten := []

/-- The machine as it was made, with the program that it has now. -/
def reset (m : Machine) : Machine := start m.program m.staged

/-- The output, oldest byte first. -/
def output (m : Machine) : List Cell := m.emitted.reverse

/-- The instruction under the pointer. -/
def current? (m : Machine) : Option Item := m.pointer.index?.bind (m.program[·]?)

/-- What is compared and shown of a machine. -/
def snapshot (m : Machine) : Snapshot where
  cells := m.tape.cells
  cursor := m.tape.cursor
  pointer := m.pointer
  output := m.output
  input := m.input
  historyLength := m.history.length

/-- The pointer is a position over the program. -/
def WellFormed (m : Machine) : Prop := m.pointer.InRange m.program.length

instance (m : Machine) : Decidable m.WellFormed := inferInstanceAs (Decidable (m.pointer.InRange _))

theorem wellFormed_start (program : List Item) (staged : List Cell) : (start program staged).WellFormed := trivial

end Machine

end Rewind
