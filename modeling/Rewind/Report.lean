import Rewind.Fault
import Rewind.Text.Quoted

/-!
# Reports of failure

A `Report` is what is told of a failure: its `Kind`, a message, and for some kinds a `Detail`. Reports can be made
by hand (`Report.plain`, `Report.outOfRange`, `Report.notFound`, `Report.badProgram`); `Fault.report` makes the one
that belongs to a cause.
-/

namespace Rewind

/-- The families of failures. -/
inductive Kind
  /-- Everything that a machine reports. -/
  | machine
  /-- A byte of input is asked for: supply it and go on. -/
  | inputNeeded
  /-- Everything that a machine reports except requests for input. -/
  | refused
  /-- The pointer is at the end that it should move past. -/
  | exhausted
  /-- No instruction has the index to jump to. -/
  | outOfRange
  /-- No instruction has the symbol sought. -/
  | notFound
  /-- There is nothing to undo. -/
  | noHistory
  /-- The cursor is on the first cell and should move left. -/
  | tapeUnderflow
  /-- A program has a bracket without partner. -/
  | badProgram
  /-- A value that is not admitted. -/
  | badValue
  /-- A position that is not there. -/
  | badPosition
  /-- A position that is none. -/
  | noPosition
  deriving DecidableEq

/-- The wider families of a kind, nearest first. -/
def Kind.ancestors : Kind → List Kind
  | machine | badValue | badPosition | noPosition => []
  | inputNeeded | refused => [machine]
  | exhausted | outOfRange | notFound | noHistory | tapeUnderflow | badProgram => [refused, machine]

/-- What a report tells besides its message. -/
inductive Detail
  /-- The index asked for and the last one that there is. -/
  | range (index : Int) (last : Option Int)
  /-- The symbol sought. -/
  | symbol (symbol : String)
  /-- The bracket without partner and where it stands, if that is known. -/
  | bracket (bracket : Bracket) (location : Option Int)
  deriving DecidableEq

/-- What is told of a failure. -/
structure Report where
  kind : Kind
  message : String
  detail : Option Detail
  deriving DecidableEq

/-- What is said of a bracket without partner. -/
def Bracket.complaint : Bracket → String
  | .opening => "unmatched open paren"
  | .closing => "unmatched close paren"

/-- The word for a direction. -/
def Direction.word : Direction → String
  | .next => "next"
  | .previous => "previous"

namespace Report

/-- A report that has only a message. -/
def plain (kind : Kind) (message : String) : Report := ⟨kind, message, none⟩

/-- The report on a position that no instruction has. -/
def outOfRange (index : Int) : Option Int → Report
  | none => ⟨.outOfRange, s!"no instruction at position {index} (program is empty)", some (.range index none)⟩
  | some last => ⟨.outOfRange, s!"no instruction at position {index} (max {last})", some (.range index last)⟩

/-- The report on a symbol that no instruction has. -/
def notFound (symbol direction : String) : Report :=
  ⟨.notFound, s!"no {direction} {symbol} instruction found", some (.symbol symbol)⟩

/-- The report on a bracket without partner; words given with it take the place of the usual ones. -/
def badProgram (bracket : Bracket) (location : Option Int) (words : Option String) : Report :=
  let usual := bracket.complaint
  let placed := match location with
    | none => usual
    | some position => s!"{usual} at position {position}"
  ⟨.badProgram, words.getD placed, some (.bracket bracket location)⟩

end Report

/-- The report on a cause of failure. -/
def Fault.report : Fault → Report
  | pastEnd => .plain .exhausted "already at the end of the instruction list"
  | beforeStart => .plain .exhausted "already at the start of the instruction list"
  | outOfRange index last => .outOfRange index (last.map fun n => (n : Int))
  | notFound symbol direction => .notFound symbol direction.word
  | noHistory => .plain .noHistory "no previous instruction to undo"
  | tapeUnderflow => .plain .tapeUnderflow "cannot move left of the first cell"
  | unmatched bracket location => .badProgram bracket (some location) none
  | inputNeeded message => .plain .inputNeeded message
  | raised message => .plain .refused message
  | notAByte => .plain .badValue "byte must be in range(0, 256)"
  | notBytes => .plain .badValue "bytes must be in range(0, 256)"
  | unknownSymbol symbol => .plain .badValue (Text.quoted symbol ++ " is not a valid Instruction")
  | pointerIndex => .plain .badValue "an index is required exactly when state is INDEX"
  | emptyBuffer => .plain .badPosition "pop from empty bytearray"
  | noInstruction => .plain .badPosition "list index out of range"
  | farPosition => .plain .badPosition "cannot fit 'int' into an index-sized integer"
  | noPosition => .plain .noPosition "list indices must be integers or slices, not NoneType"

end Rewind
