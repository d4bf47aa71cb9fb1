import Rewind.Tape.Padding
import Rewind.Proofs.Hereditary
import Rewind.Proofs.Stepping

/-!
# Trailing zero cells of a machine

`Machine.pad` adds zero cells at the far end of the tape. An action that `IgnoresPadding` does the same on the padded
machine and leaves a padded machine behind. The basic operations do so, hence every effect does
(`Action.IgnoresPadding.hereditary`), and so do steps and undos (`Machine.step_pad`, `Machine.undo_pad`).
-/

namespace Rewind

open Rewind.Action

/-- The machine with `k` more zero cells at the far end of its tape. -/
def Machine.pad (k : Nat) (m : Machine) : Machine := { m with tape := m.tape.pad k }

section Parts

variable (k : Nat) (m : Machine)

@[simp] theorem Machine.pad_program : (m.pad k).program = m.program := rfl

@[simp] theorem Machine.pad_pointer : (m.pad k).pointer = m.pointer := rfl

@[simp] theorem Machine.pad_history : (m.pad k).history = m.history := rfl

@[simp] theorem Machine.pad_input : (m.pad k).input = m.input := rfl

@[simp] theorem Machine.pad_zero : m.pad 0 = m := by simp [pad]

@[simp] theorem Machine.pad_pad (j : Nat) : (m.pad j).pad k = m.pad (j + k) := by simp [pad]

end Parts

/-- The machine is another one but for more zero cells at the far end of its tape. -/
def Machine.Extends (m n : Machine) : Prop := ∃ k, m = n.pad k

/-- The outcome with `k` more zero cells. -/
def Outcome.pad {α : Type} (k : Nat) (o : Outcome α) : Outcome α := { o with machine := o.machine.pad k }

/-- Zero cells at the far end of the tape make no difference to an action. -/
def Action.IgnoresPadding {α : Type} (x : Action α) : Prop := ∀ m k, ∃ j, x (m.pad k) = (x m).pad j

namespace Action.IgnoresPadding

variable {α β : Type}

/-- The padding stays as it is. -/
theorem of_pad {x : Action α} (h : ∀ m k, x (m.pad k) = (x m).pad k) : IgnoresPadding x := fun m k => ⟨k, h m k⟩

theorem pure (a : α) : IgnoresPadding (Pure.pure a : Action α) := of_pad fun _ _ => rfl

theorem bind {x : Action α} {f : α → Action β} (hx : IgnoresPadding x) (hf : ∀ a, IgnoresPadding (f a)) :
    IgnoresPadding (x >>= f) := by
  intro m k
  obtain ⟨j, hj⟩ := hx m k
  simp only [bind_apply, hj]
  obtain ⟨r, n, es⟩ := x m
  cases r with
  | error fault => exact ⟨j, rfl⟩
  | ok a =>
    obtain ⟨i, hi⟩ := hf a n j
    refine ⟨i, ?_⟩
    simp only [Outcome.pad, Outcome.andThen_ok, hi]

/-- An action that goes by the machine, but by nothing that padding changes. -/
theorem get_bind {f : Machine → Action β} (hsame : ∀ m k, f (m.pad k) = f m) (hf : ∀ m, IgnoresPadding (f m)) :
    IgnoresPadding (get >>= f) := by
  intro m k
  obtain ⟨j, hj⟩ := hf m m k
  refine ⟨j, ?_⟩
  simp only [bind_apply, get_apply, Outcome.andThen_ok, List.nil_append, hsame]
  exact hj

end Action.IgnoresPadding

namespace Machine

open Rewind.Action.IgnoresPadding

theorem movedTo_pad (fault : Fault) (m : Machine) (k : Nat) (p : Option (Pointer Nat)) :
    (m.pad k).movedTo fault p = (m.movedTo fault p).pad k := by cases p <;> rfl

theorem advance_ignoresPadding : IgnoresPadding advance := of_pad fun m k => by
  rw [advance_apply, advance_apply, movedTo_pad, pad_pointer, pad_program]

theorem retreat_ignoresPadding : IgnoresPadding retreat := of_pad fun m k => by
  rw [retreat_apply, retreat_apply, movedTo_pad, pad_pointer, pad_program]

theorem jump_ignoresPadding (index : Int) : IgnoresPadding (jump index) := of_pad fun m k => by
  rw [jump_apply, jump_apply, pad_program]
  split <;> rfl

theorem seekForward_ignoresPadding (symbol : String) : IgnoresPadding (seekForward symbol) := of_pad fun m k => by
  rw [seekForward_apply, seekForward_apply, movedTo_pad, pad_pointer, pad_program]
  split <;> rfl

theorem seekBackward_ignoresPadding (symbol : String) : IgnoresPadding (seekBackward symbol) := of_pad fun m k => by
  rw [seekBackward_apply, seekBackward_apply, movedTo_pad, pad_pointer, pad_program]
  split <;> rfl

theorem changeTape_ignoresPadding (change : Tape.Change) : IgnoresPadding (changeTape change) := by
  intro m k
  obtain ⟨j, hj⟩ := Tape.change?_pad change k m.tape
  simp only [changeTape_apply, pad, hj]
  cases m.tape.change? change with
  | none => exact ⟨k, rfl⟩
  | some t => exact ⟨j, rfl⟩

theorem unemit_ignoresPadding : IgnoresPadding unemit := of_pad fun m k => by
  cases h : m.emitted <;> simp [unemit_apply, pad, Outcome.pad, h]

theorem supplyInput_ignoresPadding (data : List Int) : IgnoresPadding (supplyInput data) := of_pad fun m k => by
  rw [supplyInput_apply, supplyInput_apply]
  cases Cell.listOfInts? data <;> rfl

theorem nextInput_ignoresPadding : IgnoresPadding nextInput := of_pad fun m k => by
  cases h : m.input <;> simp [nextInput_apply, pad, Outcome.pad, h]

theorem inputPop_ignoresPadding : IgnoresPadding inputPop := of_pad fun m k => by
  simp only [inputPop, bind_apply, get_apply, Outcome.andThen_ok, List.nil_append, pad_input]
  cases m.input.getLast? <;> rfl

theorem restoreCell_ignoresPadding : IgnoresPadding restoreCell := of_pad fun m k => by
  cases h : m.overwritten <;> simp [restoreCell_apply, pad, Outcome.pad, h, Tape.write_pad]

theorem load_ignoresPadding (program : List Item) : IgnoresPadding (load program) := of_pad fun m k => by
  rw [load_apply, load_apply, pad_pointer]
  rfl

end Machine

/-- Zero cells at the far end of the tape make no difference to any effect. -/
theorem Action.IgnoresPadding.hereditary : Hereditary IgnoresPadding where
  pure := .pure
  bind := .bind
  fail _ := .of_pad fun _ _ => rfl
  inspect hsame hf := .get_bind (fun m _ => hsame m _) hf
  advance := Machine.advance_ignoresPadding
  retreat := Machine.retreat_ignoresPadding
  jump := Machine.jump_ignoresPadding
  seekForward := Machine.seekForward_ignoresPadding
  seekBackward := Machine.seekBackward_ignoresPadding
  readCell := .of_pad fun _ _ => rfl
  changeTape _ := Machine.changeTape_ignoresPadding _
  emitByte _ := .of_pad fun _ _ => rfl
  unemit := Machine.unemit_ignoresPadding
  outputClear := .of_pad fun _ _ => rfl
  supplyInput := Machine.supplyInput_ignoresPadding
  nextInput := Machine.nextInput_ignoresPadding
  returnInput _ := .of_pad fun _ _ => rfl
  inputPop := Machine.inputPop_ignoresPadding
  inputClear := .of_pad fun _ _ => rfl
  saveCell := .of_pad fun _ _ => rfl
  restoreCell := Machine.restoreCell_ignoresPadding
  cellsClear := .of_pad fun _ _ => rfl
  load := Machine.load_ignoresPadding
  restart m k := ⟨0, by simp [Machine.restart_apply, Outcome.pad, Machine.reset, Machine.pad]⟩

namespace Machine

open Rewind.Action.IgnoresPadding

variable {m : Machine}

theorem recordExecuted_ignoresPadding (item : Item) : IgnoresPadding (recordExecuted item) := .of_pad fun _ _ => rfl

/-- A step of a padded machine is the padded step. -/
theorem step_pad (m : Machine) (k : Nat) : ∃ j, step (m.pad k) = (step m).pad j := by
  cases h : m.current? with
  | none =>
    rw [step_of_current?_eq_none h, step_of_current?_eq_none (m := m.pad k) h]
    exact (advance_ignoresPadding.bind fun _ => .pure none) m k
  | some item =>
    rw [step_of_current?_eq_some h, step_of_current?_eq_some (m := m.pad k) h]
    exact ((hereditary.itemForward item).bind fun _ => recordExecuted_ignoresPadding _) m k

theorem recordUndone_ignoresPadding (item : Item) : IgnoresPadding (recordUndone item) := .of_pad fun _ _ => rfl

/-- Undoing on a padded machine is the padded undoing. -/
theorem undo_pad (m : Machine) (k : Nat) : ∃ j, undo (m.pad k) = (undo m).pad j := by
  cases h : m.history with
  | nil =>
    rw [undo_of_history_eq_nil h, undo_of_history_eq_nil (m := m.pad k) h]
    exact ⟨k, rfl⟩
  | cons item rest =>
    rw [undo_of_history_eq_cons h, undo_of_history_eq_cons (m := m.pad k) h]
    exact ((hereditary.itemInverse item).bind fun _ => recordUndone_ignoresPadding _) { m with history := rest } k

end Machine

end Rewind
