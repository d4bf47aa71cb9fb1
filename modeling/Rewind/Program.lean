import Rewind.Cell
import Rewind.Fault

/-!
# Programs

A program is a list of items. An `Item` is a command or a custom instruction, which has a symbol of its own and two
lists of calls: one to perform it and one to undo it. A `Call` is an operation of the machine that a custom
instruction may use. A `Listing` is a program as it is handed over, not yet read: a source text, or entries one by
one. A cell can be transformed by any function; a `CellMap` is one that has a written form.

- `Item.symbol` is what an item is called by when it is sought; `Item.bracket?` looks at commands only, so that a
  custom instruction is no bracket, whatever its symbol (`bracket?_custom`).
-/

namespace Rewind

/-- A function from a cell to an integer that can be written down. -/
inductive CellMap
  /-- Adds without wrapping. -/
  | add (n : Int)
  /-- Adds modulo 256. -/
  | addWrap (n : Int)
  /-- Exclusive or, with a negative number read as two's complement without end. -/
  | xor (n : Int)
  /-- Always the same integer. -/
  | const (n : Int)
  /-- Always fails. -/
  | fail
  deriving DecidableEq

/-- The value of a cell map at a cell. -/
def CellMap.apply : CellMap → Cell → Except Fault Int
  | add n, c => .ok (c.value + n)
  | addWrap n, c => .ok ((c.value + n).emod 256)
  | xor (.ofNat n), c => .ok (.ofNat (c.toNat ^^^ n))
  | xor (.negSucc n), c => .ok (.negSucc (c.toNat ^^^ n))
  | const n, _ => .ok n
  | fail, _ => .error (.raised "transform failed")

instance : Coe CellMap (Cell → Except Fault Int) := ⟨CellMap.apply⟩

mutual

/-- One instruction of a program. -/
inductive Item
  /-- A command of the language. -/
  | command (c : Command)
  /-- An instruction made of calls; the calls of `inverse` undo what those of `forward` do. -/
  | custom (symbol : String) (forward inverse : List Call)

/-- An operation of the machine, as a custom instruction calls it. -/
inductive Call
  /-- Moves the instruction pointer one position on. -/
  | advance
  /-- Moves the instruction pointer one position back. -/
  | retreat
  /-- Moves the instruction pointer to the instruction at an index. -/
  | jump (index : Int)
  /-- Moves the instruction pointer to the next instruction with a symbol. -/
  | seekForward (symbol : String)
  /-- Moves the instruction pointer to the previous instruction with a symbol. -/
  | seekBackward (symbol : String)
  | moveRight
  | moveLeft
  | readCell
  | writeCell (value : Int)
  /-- Writes what a function makes of the cell. The function may fail, and its value need not be a byte. -/
  | transformCell (f : Cell → Except Fault Int)
  /-- Puts bytes in front of the input. -/
  | supplyInput (data : List Int)
  /-- Puts the machine back to where it was made, keeping its program. -/
  | reset
  /-- Replaces the program. -/
  | load (listing : Listing)
  /-- Finds the partner of the bracket at an index. -/
  | matchingBracket (index : Int)
  /-- Applies the effect of a command. -/
  | forward (symbol : String)
  /-- Applies the effect that undoes a command. -/
  | inverse (symbol : String)
  | instructionCount
  | history
  | program
  | outputAppend (value : Int)
  | outputClear
  | inputClear
  /-- Forgets the cells that input has replaced. -/
  | cellsClear
  /-- Takes the last byte of the input. -/
  | inputPop
  /-- Takes the first byte of the input and writes it to the cell. -/
  | takeInput
  /-- Fails. -/
  | fail (message : String)
  /-- Fails with a request for input. -/
  | request (message : String)

/-- A program as it is handed over. -/
inductive Listing
  /-- A source text. -/
  | source (text : String)
  | entries (entries : List Entry)

/-- One entry of a listing. -/
inductive Entry
  /-- A symbol that should be that of a command. -/
  | symbol (symbol : String)
  | item (item : Item)

end

namespace Item

/-- What an item is called by. -/
def symbol : Item → String
  | command c => c.symbol
  | custom s _ _ => s

/-- The bracket that an item is, if it is one. -/
def bracket? : Item → Option Bracket
  | command c => c.bracket?
  | custom _ _ _ => none

@[simp] theorem bracket?_command (c : Command) : (command c).bracket? = c.bracket? := rfl

@[simp] theorem bracket?_custom (s : String) (forward inverse : List Call) :
    (custom s forward inverse).bracket? = none := rfl

end Item

end Rewind
