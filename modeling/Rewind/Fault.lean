import Rewind.Bracket

/-!
# Faults

`Fault` lists the causes of failure. How a cause is reported, with its family and its words, is the matter of
`Rewind.Report`.
-/

namespace Rewind

/-- The two ways in which a symbol is sought. -/
inductive Direction
  | next
  | previous
  deriving DecidableEq

/-- What can go wrong. -/
inductive Fault
  /-- The pointer is past the last instruction and cannot go on. -/
  | pastEnd
  /-- The pointer is before the first instruction and cannot go back. -/
  | beforeStart
  /-- There is no instruction to jump to at `index`; `last` is the last index that has one. -/
  | outOfRange (index : Int) (last : Option Nat)
  /-- No instruction in the given direction has the symbol. -/
  | notFound (symbol : String) (direction : Direction)
  /-- There is nothing left to undo. -/
  | noHistory
  /-- The cursor is on the first cell and cannot move left. -/
  | tapeUnderflow
  /-- The bracket at `location` has no partner. -/
  | unmatched (bracket : Bracket) (location : Int)
  /-- A byte of input is asked for. -/
  | inputNeeded (message : String)
  /-- A custom instruction gives up. -/
  | raised (message : String)
  /-- An integer to be stored is not a byte. -/
  | notAByte
  /-- One of the integers given as first input is not a byte. -/
  | notBytes
  /-- The text is not the symbol of a command. -/
  | unknownSymbol (symbol : String)
  /-- A pointer is on an instruction exactly when it has an index. -/
  | pointerIndex
  /-- There is no byte to take back. -/
  | emptyBuffer
  /-- There is no instruction at the position asked for. -/
  | noInstruction
  /-- The position asked for is too far out to be one of any program. -/
  | farPosition
  /-- The pointer is on no instruction, so there is no bracket to find the partner of. -/
  | noPosition
  deriving DecidableEq

/-- The fault of an instruction that finds no input. -/
def Fault.waiting : Fault := .inputNeeded "waiting for input"

end Rewind
