import Rewind.Action

/-!
# Working on the tape

Every change of the tape goes through `Machine.changeTape`, which tells of it. A value to be stored must be a byte;
otherwise, and on a move left of the first cell, nothing changes.
-/

namespace Rewind.Machine

open Rewind.Action

/-- Makes a change of the tape and tells of it. -/
def changeTape (change : Tape.Change) : Action Unit := do
  let m ← get
  match m.tape.change? change with
  | some t =>
    set { m with tape := t }
    emit (.tape change)
  | none => fail .tapeUnderflow

/-- Moves the cursor right. -/
def moveRight : Action Unit := changeTape .right

/-- Moves the cursor left. -/
def moveLeft : Action Unit := changeTape .left

/-- The cell under the cursor. -/
def readCell : Action Cell := do return (← get).tape.here

/-- Stores a byte under the cursor. -/
def writeByte (value : Cell) : Action Unit := changeTape (.write value)

/-- Applies a function on bytes to the cell under the cursor. -/
def updateCell (f : Cell → Cell) : Action Unit := do writeByte (f (← readCell))

/-- The byte that an integer is. -/
def byteOf (value : Int) : Action Cell :=
  match Cell.ofInt? value with
  | some c => pure c
  | none => fail .notAByte

/-- Stores an integer under the cursor. -/
def writeCell (value : Int) : Action Unit := do writeByte (← byteOf value)

/-- Applies a function to the cell under the cursor, which may fail or give what is not a byte. -/
def transformCell (f : Cell → Except Fault Int) : Action Unit := do writeCell (← ofExcept (f (← readCell)))

/-! ## What the changes do -/

theorem changeTape_apply (change : Tape.Change) (m : Machine) :
    changeTape change m =
      match m.tape.change? change with
      | some t => ⟨.ok (), { m with tape := t }, [.tape change]⟩
      | none => ⟨.error .tapeUnderflow, m, []⟩ := by
  simp only [changeTape, bind_apply, get_apply, Outcome.andThen_ok, List.nil_append]
  cases m.tape.change? change <;> rfl

theorem moveRight_apply (m : Machine) :
    moveRight m = ⟨.ok (), { m with tape := m.tape.moveRight }, [.tape .right]⟩ := changeTape_apply ..

theorem moveLeft_apply (m : Machine) :
    moveLeft m =
      match m.tape.moveLeft? with
      | some t => ⟨.ok (), { m with tape := t }, [.tape .left]⟩
      | none => ⟨.error .tapeUnderflow, m, []⟩ := changeTape_apply ..

@[simp] theorem readCell_apply (m : Machine) : readCell m = ⟨.ok m.tape.here, m, []⟩ := rfl

@[simp] theorem writeByte_apply (value : Cell) (m : Machine) :
    writeByte value m = ⟨.ok (), { m with tape := m.tape.write value }, [.tape (.write value)]⟩ :=
  changeTape_apply ..

@[simp] theorem updateCell_apply (f : Cell → Cell) (m : Machine) :
    updateCell f m =
      ⟨.ok (), { m with tape := m.tape.write (f m.tape.here) }, [.tape (.write (f m.tape.here))]⟩ := by
  simp [updateCell]

theorem writeCell_apply (value : Int) (m : Machine) :
    writeCell value m =
      match Cell.ofInt? value with
      | some c => ⟨.ok (), { m with tape := m.tape.write c }, [.tape (.write c)]⟩
      | none => ⟨.error .notAByte, m, []⟩ := by
  simp only [writeCell, bind_apply, byteOf]
  cases Cell.ofInt? value <;> simp

theorem transformCell_apply (f : Cell → Except Fault Int) (m : Machine) :
    transformCell f m =
      match f m.tape.here with
      | .ok value => writeCell value m
      | .error fault => ⟨.error fault, m, []⟩ := by
  simp only [transformCell, bind_apply, readCell_apply, Outcome.andThen_ok, List.nil_append, ofExcept_apply]
  cases f m.tape.here <;> simp

end Rewind.Machine
