import Rewind.Answer
import Rewind.Effect
import Rewind.Machine.Loading
import Rewind.Source

/-!
# Performing calls and instructions

- `Call.perform` performs one call;
- `Item.forward` and `Item.inverse` are the effects of an instruction. Those of a custom one perform its calls in
  order and stop at the first fault, keeping what was done before it (`performAll_cons`).
-/

namespace Rewind

open Rewind.Action

/-- An action whose value is dropped. -/
def Action.silently {α : Type} (x : Action α) : Action Answer := do
  let _ ← x
  return .nothing

/-- Performs a call. -/
def Call.perform : Call → Action Answer
  | advance => silently Machine.advance
  | retreat => silently Machine.retreat
  | jump index => silently (Machine.jump index)
  | seekForward symbol => silently (Machine.seekForward symbol)
  | seekBackward symbol => silently (Machine.seekBackward symbol)
  | moveRight => silently Machine.moveRight
  | moveLeft => silently Machine.moveLeft
  | readCell => do return .integer (← Machine.readCell).value
  | writeCell value => silently (Machine.writeCell value)
  | transformCell f => silently (Machine.transformCell f)
  | supplyInput data => silently (Machine.supplyInput data)
  | reset => silently Machine.restart
  | load listing => do silently (Machine.load (← ofExcept listing.build))
  | matchingBracket index => do
    return .integer (← ofExcept (Rewind.matchingBracket (← get).program index))
  | forward symbol => do silently (← ofExcept (readSymbol symbol)).forward
  | inverse symbol => do silently (← ofExcept (readSymbol symbol)).inverse
  | instructionCount => do return .integer (← get).history.length
  | history => do return .symbols ((← get).history.reverse.map Item.symbol)
  | program => do return .symbols ((← get).program.map Item.symbol)
  | outputAppend value => silently (Machine.outputAppend value)
  | outputClear => silently Machine.outputClear
  | inputClear => silently Machine.inputClear
  | cellsClear => silently Machine.cellsClear
  | inputPop => do return .integer (← Machine.inputPop).value
  | takeInput => silently Machine.takeInput
  | fail message => Action.fail (.raised message)
  | request message => Action.fail (.inputNeeded message)

/-- Performs calls in order and drops their answers. -/
def Call.performAll : List Call → Action Unit
  | [] => pure ()
  | call :: calls => do
    let _ ← call.perform
    performAll calls

@[simp] theorem Call.performAll_nil : performAll [] = pure () := rfl

theorem Call.performAll_cons (call : Call) (calls : List Call) :
    performAll (call :: calls) = (do let _ ← call.perform; performAll calls) := rfl

namespace Item

/-- What an instruction does. -/
def forward : Item → Action Unit
  | command c => c.forward
  | custom _ calls _ => Call.performAll calls

/-- What undoes an instruction. -/
def inverse : Item → Action Unit
  | command c => c.inverse
  | custom _ _ calls => Call.performAll calls

end Item

end Rewind
