import Rewind.Machine.Cells

/-!
# Input, output and saved cells

The buffers of a machine: input that is pending, output, and the cells that input has replaced. A list of integers
to be queued is taken whole or not at all.
-/

namespace Rewind.Machine

open Rewind.Action

/-! ## Output -/

/-- Appends a byte to the output. -/
def emitByte (value : Cell) : Action Unit := modify fun m => { m with emitted := value :: m.emitted }

/-- Takes back the last byte of the output. -/
def unemit : Action Unit := do
  let m ← get
  match m.emitted with
  | [] => fail .emptyBuffer
  | _ :: rest => set { m with emitted := rest }

/-- Appends an integer to the output. -/
def outputAppend (value : Int) : Action Unit := do emitByte (← byteOf value)

/-- Empties the output. -/
def outputClear : Action Unit := modify fun m => { m with emitted := [] }

/-! ## Input -/

/-- Puts integers in front of the input. -/
def supplyInput (data : List Int) : Action Unit :=
  match Cell.listOfInts? data with
  | some bytes => modify fun m => { m with input := bytes ++ m.input }
  | none => fail .notAByte

/-- Takes the first byte of the input, or asks for one. -/
def nextInput : Action Cell := do
  let m ← get
  match m.input with
  | [] => fail .waiting
  | value :: rest =>
    set { m with input := rest }
    return value

/-- Puts a byte back in front of the input. -/
def returnInput (value : Cell) : Action Unit := modify fun m => { m with input := value :: m.input }

/-- Takes the last byte of the input. -/
def inputPop : Action Cell := do
  let m ← get
  match m.input.getLast? with
  | none => fail .emptyBuffer
  | some value =>
    set { m with input := m.input.dropLast }
    return value

/-- Empties the input. -/
def inputClear : Action Unit := modify fun m => { m with input := [] }

/-- Takes the first byte of the input and stores it under the cursor, keeping nothing of the cell. -/
def takeInput : Action Unit := do writeByte (← nextInput)

/-! ## Saved cells -/

/-- Saves the cell under the cursor. -/
def saveCell : Action Unit := modify fun m => { m with overwritten := m.tape.here :: m.overwritten }

/-- Takes the cell saved last and stores it under the cursor. -/
def restoreCell : Action Unit := do
  let m ← get
  match m.overwritten with
  | [] => fail .emptyBuffer
  | value :: rest =>
    set { m with overwritten := rest }
    writeByte value

/-- Forgets all saved cells. -/
def cellsClear : Action Unit := modify fun m => { m with overwritten := [] }

/-! ## What the operations do -/

@[simp] theorem emitByte_apply (value : Cell) (m : Machine) :
    emitByte value m = ⟨.ok (), { m with emitted := value :: m.emitted }, []⟩ := rfl

theorem unemit_apply (m : Machine) :
    unemit m =
      match m.emitted with
      | [] => ⟨.error .emptyBuffer, m, []⟩
      | _ :: rest => ⟨.ok (), { m with emitted := rest }, []⟩ := by
  simp only [unemit, bind_apply, get_apply, Outcome.andThen_ok, List.nil_append]
  cases m.emitted <;> rfl

theorem nextInput_apply (m : Machine) :
    nextInput m =
      match m.input with
      | [] => ⟨.error .waiting, m, []⟩
      | value :: rest => ⟨.ok value, { m with input := rest }, []⟩ := by
  simp only [nextInput, bind_apply, get_apply, Outcome.andThen_ok, List.nil_append]
  cases m.input <;> rfl

@[simp] theorem returnInput_apply (value : Cell) (m : Machine) :
    returnInput value m = ⟨.ok (), { m with input := value :: m.input }, []⟩ := rfl

theorem supplyInput_apply (data : List Int) (m : Machine) :
    supplyInput data m =
      match Cell.listOfInts? data with
      | some bytes => ⟨.ok (), { m with input := bytes ++ m.input }, []⟩
      | none => ⟨.error .notAByte, m, []⟩ := by
  unfold supplyInput
  cases Cell.listOfInts? data <;> rfl

@[simp] theorem saveCell_apply (m : Machine) :
    saveCell m = ⟨.ok (), { m with overwritten := m.tape.here :: m.overwritten }, []⟩ := rfl

theorem restoreCell_apply (m : Machine) :
    restoreCell m =
      match m.overwritten with
      | [] => ⟨.error .emptyBuffer, m, []⟩
      | value :: rest =>
        ⟨.ok (), { m with overwritten := rest, tape := m.tape.write value }, [.tape (.write value)]⟩ := by
  simp only [restoreCell, bind_apply, get_apply, Outcome.andThen_ok, List.nil_append]
  cases m.overwritten <;> simp

end Rewind.Machine
