import Rewind.Balance
import Rewind.Fault
import Rewind.Tape

/-!
# Tree programs

A tree program is a list of nodes: commands other than brackets, and loops around tree programs. It needs no
instruction pointer.

- `Node.flattenAll` writes a tree program as a list of commands, which is balanced (`balanced_flattenAll`);
- `Node.Runs` says how a tree program runs: it ends well or is stuck at a fault. A program that goes on for ever
  has no derivation.
-/

namespace Rewind

/-- A node of a tree program. -/
inductive Node
  | command (c : Command) (plain : c.bracket? = none)
  | loop (body : List Node)

/-- What a tree program works on. -/
structure Store where
  tape : Tape
  input : List Cell
  /-- The output, newest byte first. -/
  emitted : List Cell
  deriving DecidableEq

namespace Store

/-- A blank tape, some input and no output. -/
def start (input : List Cell) : Store := ⟨.blank, input, []⟩

/-- What a command other than a bracket does. -/
def perform : Command → Store → Except Fault Store
  | .moveRight, s => .ok { s with tape := s.tape.moveRight }
  | .moveLeft, s =>
    match s.tape.moveLeft? with
    | some t => .ok { s with tape := t }
    | none => .error .tapeUnderflow
  | .increment, s => .ok { s with tape := s.tape.write (s.tape.here + 1) }
  | .decrement, s => .ok { s with tape := s.tape.write (s.tape.here - 1) }
  | .emit, s => .ok { s with emitted := s.tape.here :: s.emitted }
  | .accept, s =>
    match s.input with
    | value :: rest => .ok { s with tape := s.tape.write value, input := rest }
    | [] => .error .waiting
  | .openLoop, s | .closeLoop, s => .ok s

end Store

namespace Node

/-! ## Writing a tree program -/

mutual

/-- The commands of a node. -/
def flatten : Node → List Command
  | command c _ => [c]
  | loop body => .openLoop :: (flattenAll body ++ [.closeLoop])

/-- The commands of a tree program. -/
def flattenAll : List Node → List Command
  | [] => []
  | node :: nodes => node.flatten ++ flattenAll nodes

end

mutual

theorem balanced_flatten : (node : Node) → Balanced Command.bracket? node.flatten
  | command c plain => by
    rw [flatten]
    exact balanced_of_forall_none (by simpa using plain)
  | loop body => by
    rw [flatten]
    exact (balanced_flattenAll body).enclose rfl rfl

/-- A tree program is written as a balanced list of commands. -/
theorem balanced_flattenAll : (nodes : List Node) → Balanced Command.bracket? (flattenAll nodes)
  | [] => by
    rw [flattenAll]
    exact balanced_nil
  | node :: nodes => by
    rw [flattenAll]
    exact (balanced_flatten node).append (balanced_flattenAll nodes)

end

/-! ## Running a tree program -/

/-- The tree program runs from one store to another, where it has ended or is stuck at a fault. -/
inductive Runs : List Node → Store → Option Fault → Store → Prop
  /-- Nothing is left to do. -/
  | done (s : Store) : Runs [] s none s
  /-- A command is performed. -/
  | next {c : Command} {plain : c.bracket? = none} {nodes : List Node} {s u t : Store} {fault : Option Fault}
      (performed : Store.perform c s = .ok u) (rest : Runs nodes u fault t) :
      Runs (command c plain :: nodes) s fault t
  /-- A command cannot be performed. -/
  | stuck {c : Command} {plain : c.bracket? = none} {nodes : List Node} {s : Store} {fault : Fault}
      (refused : Store.perform c s = .error fault) : Runs (command c plain :: nodes) s (some fault) s
  /-- A loop ends at a zero cell. -/
  | leave {body nodes : List Node} {s t : Store} {fault : Option Fault}
      (zero : s.tape.here = 0) (rest : Runs nodes s fault t) : Runs (loop body :: nodes) s fault t
  /-- A loop goes round once and comes back. -/
  | again {body nodes : List Node} {s u t : Store} {fault : Option Fault}
      (nonzero : s.tape.here ≠ 0) (round : Runs body s none u) (rest : Runs (loop body :: nodes) u fault t) :
      Runs (loop body :: nodes) s fault t
  /-- A loop is stuck on its way round. -/
  | inside {body nodes : List Node} {s t : Store} {fault : Fault}
      (nonzero : s.tape.here ≠ 0) (round : Runs body s (some fault) t) :
      Runs (loop body :: nodes) s (some fault) t

/-- A tree program runs in one way only. -/
theorem Runs.unique {nodes : List Node} {s t t' : Store} {fault fault' : Option Fault}
    (h : Runs nodes s fault t) (h' : Runs nodes s fault' t') : fault = fault' ∧ t = t' := by
  induction h generalizing fault' t' with
  | done s =>
    cases h'
    exact ⟨rfl, rfl⟩
  | next performed rest ih =>
    cases h' with
    | next performed' rest' =>
      obtain rfl := Except.ok.inj (performed.symm.trans performed')
      exact ih rest'
    | stuck refused => rw [performed] at refused; cases refused
  | stuck refused =>
    cases h' with
    | next performed' rest' => rw [refused] at performed'; cases performed'
    | stuck refused' =>
      obtain rfl := Except.error.inj (refused.symm.trans refused')
      exact ⟨rfl, rfl⟩
  | leave zero rest ih =>
    cases h' with
    | leave _ rest' => exact ih rest'
    | again nonzero _ _ => exact absurd zero nonzero
    | inside nonzero _ => exact absurd zero nonzero
  | again nonzero round rest ihRound ihRest =>
    cases h' with
    | leave zero _ => exact absurd zero nonzero
    | again _ round' rest' =>
      obtain ⟨-, rfl⟩ := ihRound round'
      exact ihRest rest'
    | inside _ round' => exact absurd (ihRound round').1 (by simp)
  | inside nonzero round ih =>
    cases h' with
    | leave zero _ => exact absurd zero nonzero
    | again _ round' _ => exact absurd (ih round').1 (by simp)
    | inside _ round' => exact ih round'

end Node

end Rewind
