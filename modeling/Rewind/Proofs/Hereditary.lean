import Rewind.Performance

/-!
# Properties that pass to every effect

Commands, calls and custom instructions are all made of the same basic operations. `Action.Hereditary R` says that
these operations have a property `R` and that it passes from the parts of an action to the whole. Every command then has
it (`Composable.forward`, `Composable.inverse`), every call (`Hereditary.perform`) and every instruction
(`Hereditary.itemForward`, `Hereditary.itemInverse`). A property that a new program or a new beginning may destroy is
at best `Action.Composable`; then the other calls have it (`Composable.perform`).
-/

namespace Rewind

open Rewind.Action

/--
The basic operations that neither load a program nor start over have the property, and it passes to what is made of them.
-/
structure Action.Composable (R : {α : Type} → Action α → Prop) : Prop where
  pure {α : Type} (a : α) : R (Pure.pure a : Action α)
  bind {α β : Type} {x : Action α} {f : α → Action β} (hx : R x) (hf : ∀ a, R (f a)) : R (x >>= f)
  fail {α : Type} (fault : Fault) : R (Action.fail fault : Action α)
  /-- An action that goes by the machine, but not by its tape. -/
  inspect {α : Type} {f : Machine → Action α} (hsame : ∀ m t, f { m with tape := t } = f m) (hf : ∀ m, R (f m)) :
    R (get >>= f)
  advance : R Machine.advance
  retreat : R Machine.retreat
  jump (index : Int) : R (Machine.jump index)
  seekForward (symbol : String) : R (Machine.seekForward symbol)
  seekBackward (symbol : String) : R (Machine.seekBackward symbol)
  readCell : R Machine.readCell
  /-- Only a new beginning clears the tape. -/
  changeTape {change : Tape.Change} (kept : change ≠ .clear) : R (Machine.changeTape change)
  emitByte (value : Cell) : R (Machine.emitByte value)
  unemit : R Machine.unemit
  outputClear : R Machine.outputClear
  supplyInput (data : List Int) : R (Machine.supplyInput data)
  nextInput : R Machine.nextInput
  returnInput (value : Cell) : R (Machine.returnInput value)
  inputPop : R Machine.inputPop
  inputClear : R Machine.inputClear
  saveCell : R Machine.saveCell
  restoreCell : R Machine.restoreCell
  cellsClear : R Machine.cellsClear

/-- All basic operations have the property, and it passes to what is made of them. -/
structure Action.Hereditary (R : {α : Type} → Action α → Prop) : Prop extends Composable R where
  load (program : List Item) : R (Machine.load program)
  restart : R Machine.restart

/-- The calls that neither load a program nor start over. -/
def Call.Stays : Call → Prop
  | load _ | reset => False
  | _ => True

theorem Call.stays_or (call : Call) : call.Stays ∨ call = .reset ∨ ∃ listing, call = .load listing := by
  cases call <;> simp [Stays]

namespace Action.Composable

variable {R : {α : Type} → Action α → Prop} (h : Composable R)
include h

/-! ## Operations made of others -/

theorem ofExcept {α : Type} (x : Except Fault α) : R (Action.ofExcept x) := by
  cases x with
  | ok a => exact h.pure a
  | error fault => exact h.fail fault

theorem silently {α : Type} {x : Action α} (hx : R x) : R (Action.silently x) := h.bind hx fun _ => h.pure _

theorem writeByte (value : Cell) : R (Machine.writeByte value) := h.changeTape (by simp)

theorem updateCell (f : Cell → Cell) : R (Machine.updateCell f) := h.bind h.readCell fun _ => h.writeByte _

theorem byteOf (value : Int) : R (Machine.byteOf value) := by
  unfold Machine.byteOf
  cases Cell.ofInt? value with
  | some c => exact h.pure c
  | none => exact h.fail _

theorem writeCell (value : Int) : R (Machine.writeCell value) := h.bind (h.byteOf value) h.writeByte

theorem transformCell (f : Cell → Except Fault Int) : R (Machine.transformCell f) :=
  h.bind h.readCell fun _ => h.bind (h.ofExcept _) h.writeCell

theorem jumpToPartner : R Machine.jumpToPartner := by
  refine h.inspect (fun _ _ => rfl) fun m => ?_
  cases m.pointer.index? with
  | none => exact h.fail _
  | some i => exact h.bind (h.ofExcept _) h.jump

theorem jumpFrom (b : Bracket) : R (Machine.jumpFrom b) := by
  refine h.inspect (fun _ _ => rfl) fun m => ?_
  split
  · exact h.jumpToPartner
  · exact h.pure _

/-! ## Commands -/

theorem forward (c : Command) : R c.forward := by
  cases c with
  | moveRight | moveLeft => exact h.bind (h.changeTape (by simp)) fun _ => h.advance
  | increment | decrement => exact h.bind (h.updateCell _) fun _ => h.advance
  | emit => exact h.bind h.readCell fun value => h.bind (h.emitByte value) fun _ => h.advance
  | accept =>
    exact h.bind h.nextInput fun value => h.bind h.saveCell fun _ => h.bind (h.writeByte value) fun _ => h.advance
  | openLoop | closeLoop =>
    refine h.bind h.readCell fun value => ?_
    split
    · exact h.bind h.jumpToPartner fun _ => h.advance
    · exact h.advance

theorem inverse (c : Command) : R c.inverse := by
  cases c with
  | moveRight | moveLeft => exact h.bind h.retreat fun _ => h.changeTape (by simp)
  | increment | decrement => exact h.bind h.retreat fun _ => h.updateCell _
  | emit => exact h.bind h.retreat fun _ => h.unemit
  | accept =>
    exact h.bind h.retreat fun _ => h.bind h.readCell fun value => h.bind (h.returnInput value) fun _ => h.restoreCell
  | openLoop | closeLoop => exact h.bind h.retreat fun _ => h.jumpFrom _

/-! ## Calls and instructions -/

theorem perform {call : Call} (stays : call.Stays) : R call.perform := by
  cases call with
  | advance => exact h.silently h.advance
  | retreat => exact h.silently h.retreat
  | jump index => exact h.silently (h.jump index)
  | seekForward symbol => exact h.silently (h.seekForward symbol)
  | seekBackward symbol => exact h.silently (h.seekBackward symbol)
  | moveRight | moveLeft => exact h.silently (h.changeTape (by simp))
  | readCell => exact h.bind h.readCell fun _ => h.pure _
  | writeCell value => exact h.silently (h.writeCell value)
  | transformCell f => exact h.silently (h.transformCell f)
  | supplyInput data => exact h.silently (h.supplyInput data)
  | reset | load listing => exact stays.elim
  | matchingBracket index =>
    exact h.inspect (fun _ _ => rfl) fun m => h.bind (h.ofExcept _) fun _ => h.pure _
  | forward symbol => exact h.bind (h.ofExcept _) fun c => h.silently (h.forward c)
  | inverse symbol => exact h.bind (h.ofExcept _) fun c => h.silently (h.inverse c)
  | instructionCount | history | program => exact h.inspect (fun _ _ => rfl) fun m => h.pure _
  | outputAppend value => exact h.silently (h.bind (h.byteOf value) h.emitByte)
  | outputClear => exact h.silently h.outputClear
  | inputClear => exact h.silently h.inputClear
  | cellsClear => exact h.silently h.cellsClear
  | inputPop => exact h.bind h.inputPop fun _ => h.pure _
  | takeInput => exact h.silently (h.bind h.nextInput h.writeByte)
  | fail message => exact h.fail _
  | request message => exact h.fail _

end Action.Composable

namespace Action.Hereditary

variable {R : {α : Type} → Action α → Prop} (h : Hereditary R)
include h

theorem perform (call : Call) : R call.perform := by
  cases call with
  | reset => exact h.silently h.restart
  | load listing => exact h.bind (h.ofExcept _) fun program => h.silently (h.load program)
  | _ => exact h.toComposable.perform trivial

theorem performAll (calls : List Call) : R (Call.performAll calls) := by
  induction calls with
  | nil => exact h.pure ()
  | cons call calls ih => exact h.bind (h.perform call) fun _ => ih

theorem itemForward (item : Item) : R item.forward := by
  cases item with
  | command c => exact h.forward c
  | custom symbol forward inverse => exact h.performAll forward

theorem itemInverse (item : Item) : R item.inverse := by
  cases item with
  | command c => exact h.inverse c
  | custom symbol forward inverse => exact h.performAll inverse

end Action.Hereditary

end Rewind
