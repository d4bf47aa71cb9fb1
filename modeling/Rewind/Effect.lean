import Rewind.Machine.Buffers
import Rewind.Machine.Navigation
import Rewind.Pairing

/-!
# Effects of commands

Every command has an effect and an effect that undoes it. `Command.forward` moves the pointer last and
`Command.inverse` moves it first, so that the inverse begins where the forward effect ended. The effects of the loop
commands jump to the partner of a bracket; undoing one, the bracket that the pointer comes back to tells whether
there was a jump.
-/

namespace Rewind

open Rewind.Action Rewind.Machine

/-- Jumps to the partner of the bracket under the pointer. -/
def Machine.jumpToPartner : Action Unit := do
  let m ← get
  match m.pointer.index? with
  | none => fail .noPosition
  | some i => jump (← ofExcept (matchingBracket m.program i))

/-- Jumps to the partner if the instruction under the pointer is the bracket `b`. -/
def Machine.jumpFrom (b : Bracket) : Action Unit := do
  let m ← get
  if m.current?.bind Item.bracket? = some b then jumpToPartner

namespace Command

/-- What a command does. -/
def forward : Command → Action Unit
  | moveRight => do
    Machine.moveRight
    advance
  | moveLeft => do
    Machine.moveLeft
    advance
  | increment => do
    updateCell (· + 1)
    advance
  | decrement => do
    updateCell (· - 1)
    advance
  | emit => do
    emitByte (← readCell)
    advance
  | accept => do
    let value ← nextInput
    saveCell
    writeByte value
    advance
  | openLoop => do
    if (← readCell) = 0 then jumpToPartner
    advance
  | closeLoop => do
    if (← readCell) ≠ 0 then jumpToPartner
    advance

/-- What undoes a command. -/
def inverse : Command → Action Unit
  | moveRight => do
    retreat
    Machine.moveLeft
  | moveLeft => do
    retreat
    Machine.moveRight
  | increment => do
    retreat
    updateCell (· - 1)
  | decrement => do
    retreat
    updateCell (· + 1)
  | emit => do
    retreat
    unemit
  | accept => do
    retreat
    returnInput (← readCell)
    restoreCell
  | openLoop => do
    retreat
    jumpFrom .closing
  | closeLoop => do
    retreat
    jumpFrom .opening

end Command

end Rewind
