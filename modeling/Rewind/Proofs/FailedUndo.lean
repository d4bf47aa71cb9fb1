import Rewind.Pointer.Rank
import Rewind.Proofs.Retracing
import Rewind.Proofs.Strokes

/-!
# Undos that fail

The inverse of a command moves the pointer back before anything else (`Command.inverse_eq`), and what comes after the
move may fail. An undo that fails can therefore leave the machine half way.

- `Command.Resists` lists how a command resists being reverted once the pointer has moved, and `Machine.UndoStops` how
  an undo fails, each with the machine that is left (`Machine.UndoStops.undo`, `Machine.undoStops_of_error`);
- `Machine.undo_failed` says what such a machine has kept, and that no more than the history has changed exactly when
  there was nothing to undo or the pointer could not move; `Machine.undo_failed_first_cell` is a session where it moves.
-/

namespace Rewind

open Rewind.Action

namespace Command

variable {m n : Machine} {c : Command} {fault : Fault}

/-- What the inverse of a command does once the pointer has moved back. -/
def revert : Command → Action Unit
  | moveRight => Machine.moveLeft
  | moveLeft => Machine.moveRight
  | increment => Machine.updateCell (· - 1)
  | decrement => Machine.updateCell (· + 1)
  | emit => Machine.unemit
  | accept => do
    Machine.returnInput (← Machine.readCell)
    Machine.restoreCell
  | openLoop => Machine.jumpFrom .closing
  | closeLoop => Machine.jumpFrom .opening

theorem inverse_eq (c : Command) :
    c.inverse = (do
      Machine.retreat
      c.revert) := by
  cases c <;> rfl

theorem revert_of_bracket {b : Bracket} (loop : c.bracket? = some b) : c.revert = Machine.jumpFrom b.other := by
  cases c with
  | openLoop | closeLoop =>
    obtain rfl := Option.some.inj loop
    rfl
  | _ => cases loop

/-- Why a command cannot be reverted, and the machine that is left then. -/
inductive Resists (m : Machine) : Command → Fault → Machine → Prop
  | firstCell (first : m.tape.cursor = 0) : Resists m .moveRight .tapeUnderflow m
  | noOutput (empty : m.emitted = []) : Resists m .emit .emptyBuffer m
  /-- The cell goes back to the input before a saved one is looked for, and stays on the tape too. -/
  | noneSaved (empty : m.overwritten = []) :
    Resists m .accept .emptyBuffer { m with input := m.tape.here :: m.input }
  /-- The pointer has come to the other bracket of a loop, from which there is no way back. -/
  | noPartner {c : Command} {b : Bracket} {i : Nat} (loop : c.bracket? = some b) (on : m.pointer = .on i)
    (other : m.program[i]?.bind Item.bracket? = some b.other) (single : ∀ j, ¬Faces m.program b.other i j) :
    Resists m c (.unmatched b.other i) m

theorem jumpFrom_of_single {b : Bracket} {i : Nat} (on : m.pointer = .on i)
    (hb : m.program[i]?.bind Item.bracket? = some b) (single : ∀ j, ¬Faces m.program b i j) :
    Machine.jumpFrom b m = ⟨.error (.unmatched b i), m, []⟩ := by
  have hcurrent : m.current?.bind Item.bracket? = some b := by rw [Machine.current?_on on, hb]
  have missing := (matchingBracket_eq_error_iff hb).mpr ⟨rfl, single⟩
  simp only [Machine.jumpFrom, Machine.jumpToPartner, bind_apply, get_apply, Outcome.andThen_ok, List.nil_append,
    hcurrent, if_pos, on, Pointer.index?, ofExcept_apply, missing, Outcome.andThen_error]

/-- A jump to a partner fails only from a bracket that has none. -/
theorem single_of_jumpFrom {b : Bracket} (h : (Machine.jumpFrom b m).result = .error fault) :
    ∃ i, m.pointer = .on i ∧ m.program[i]?.bind Item.bracket? = some b ∧ (∀ j, ¬Faces m.program b i j) ∧
      fault = .unmatched b i := by
  by_cases hcurrent : m.current?.bind Item.bracket? = some b
  · obtain ⟨item, hitem, -⟩ := Option.bind_eq_some_iff.mp hcurrent
    obtain ⟨i, on, hi⟩ := Machine.current?_eq_some_iff.mp hitem
    have hbracket : m.program[i]?.bind Item.bracket? = some b := by rw [← Machine.current?_on on, hcurrent]
    have hjump : Machine.jumpFrom b m = Machine.jumpToPartner m := by
      simp only [Machine.jumpFrom, bind_apply, get_apply, Outcome.andThen_ok, List.nil_append, hcurrent, if_pos]
    rw [hjump] at h
    rcases jumpToPartner_on on (List.getElem?_eq_some_iff.mp hi).1 with ⟨j, -, hok⟩ | ⟨fault', missing, herror⟩
    · rw [hok] at h
      cases h
    · rw [herror] at h
      obtain rfl := Except.error.inj h
      obtain ⟨hfault, single⟩ := (matchingBracket_eq_error_iff hbracket).mp missing
      exact ⟨i, on, hbracket, single, hfault⟩
  · rw [jumpFrom_of_ne hcurrent] at h
    cases h

theorem Resists.revert (h : Resists m c fault n) : c.revert m = ⟨.error fault, n, []⟩ := by
  cases h with
  | firstCell first =>
    show Machine.moveLeft m = _
    rw [Machine.moveLeft_apply, Tape.moveLeft?_eq_none_iff.mpr first]
  | noOutput empty =>
    show Machine.unemit m = _
    rw [Machine.unemit_apply, empty]
  | noneSaved empty => simp [Command.revert, Machine.restoreCell_apply, empty]
  | noPartner loop on other single =>
    rw [revert_of_bracket loop]
    exact jumpFrom_of_single on other single

/-- A command that is not reverted resists. -/
theorem resists_of_error (h : (c.revert m).result = .error fault) : Resists m c fault (c.revert m).machine := by
  suffices hresists : ∃ n, Resists m c fault n by
    obtain ⟨n, hn⟩ := hresists
    rw [hn.revert]
    exact hn
  cases c with
  | moveRight =>
    have h : (Machine.moveLeft m).result = .error fault := h
    rw [Machine.moveLeft_apply] at h
    cases hleft : m.tape.moveLeft? with
    | none =>
      rw [hleft] at h
      obtain rfl := Except.error.inj h
      exact ⟨m, .firstCell (Tape.moveLeft?_eq_none_iff.mp hleft)⟩
    | some t =>
      rw [hleft] at h
      cases h
  | moveLeft =>
    have h : (Machine.moveRight m).result = .error fault := h
    rw [Machine.moveRight_apply] at h
    cases h
  | increment | decrement =>
    simp only [revert, Machine.updateCell_apply] at h
    cases h
  | emit =>
    have h : (Machine.unemit m).result = .error fault := h
    rw [Machine.unemit_apply] at h
    cases hemitted : m.emitted with
    | nil =>
      rw [hemitted] at h
      obtain rfl := Except.error.inj h
      exact ⟨m, .noOutput hemitted⟩
    | cons value rest =>
      rw [hemitted] at h
      cases h
  | accept =>
    simp only [revert, bind_apply, Machine.readCell_apply, Machine.returnInput_apply, Outcome.andThen_ok,
      Machine.restoreCell_apply] at h
    cases hsaved : m.overwritten with
    | nil =>
      rw [hsaved] at h
      obtain rfl := Except.error.inj h
      exact ⟨_, .noneSaved hsaved⟩
    | cons value rest =>
      rw [hsaved] at h
      cases h
  | openLoop =>
    obtain ⟨i, on, other, single, rfl⟩ := single_of_jumpFrom h
    exact ⟨m, .noPartner (b := .opening) rfl on other single⟩
  | closeLoop =>
    obtain ⟨i, on, other, single, rfl⟩ := single_of_jumpFrom h
    exact ⟨m, .noPartner (b := .closing) rfl on other single⟩

end Command

namespace Machine

variable {m n : Machine} {fault : Fault}

/-- The last instruction that was executed, if there is one, is a command. -/
def AfterCommand (m : Machine) : Prop := ∀ item ∈ m.history.head?, ∃ c, item = .command c

/-- Why an undo fails, and the machine that is left then. -/
inductive UndoStops (m : Machine) : Fault → Machine → Prop
  | noHistory (empty : m.history = []) : UndoStops m .noHistory m
  | atStart {c : Command} {rest : List Item} (newest : m.history = .command c :: rest) (start : m.pointer = .start) :
    UndoStops m .beforeStart { m with history := rest }
  | resisted {c : Command} {rest : List Item} {p : Pointer Nat} {fault : Fault} {n : Machine}
    (newest : m.history = .command c :: rest) (back : m.pointer.previous? m.program.length = some p)
    (resists : c.Resists { m with history := rest, pointer := p } fault n) : UndoStops m fault n

/-- What an undo has kept although it failed. -/
structure HalfUndone (m n : Machine) : Prop where
  history : n.history = m.history.tail
  pointer : n.pointer = m.pointer ∨ m.pointer.previous? m.program.length = some n.pointer
  /-- Only the inverse of the command that takes input gives anything back. -/
  input : n.input = m.input ∨ m.history.head? = some (.command .accept) ∧ n.input = m.tape.here :: m.input
  rest : n = { m with history := n.history, pointer := n.pointer, input := n.input }

theorem UndoStops.undo (h : m.UndoStops fault n) : undo m = ⟨.error fault, n, []⟩ := by
  cases h with
  | noHistory empty => exact undo_of_history_eq_nil empty
  | @atStart c rest newest start =>
    rw [undo_of_history_eq_cons newest]
    simp only [Item.inverse, Command.inverse_eq, bind_apply, retreat_apply, start]
    rfl
  | resisted newest back resists =>
    rw [undo_of_history_eq_cons newest]
    simp only [Item.inverse, Command.inverse_eq, bind_apply, retreat_apply, back, movedTo, Outcome.andThen_ok,
      resists.revert, Outcome.andThen_error, List.append_nil]

theorem undoStops_of_error (after : m.AfterCommand) (h : (Machine.undo m).result = .error fault) :
    m.UndoStops fault (Machine.undo m).machine := by
  suffices hstops : ∃ n, m.UndoStops fault n by
    obtain ⟨n, hn⟩ := hstops
    rw [hn.undo]
    exact hn
  cases hhistory : m.history with
  | nil =>
    rw [undo_of_history_eq_nil hhistory] at h
    obtain rfl := Except.error.inj h
    exact ⟨m, .noHistory hhistory⟩
  | cons item rest =>
    obtain ⟨c, rfl⟩ := after item (by simp [hhistory])
    rw [undo_of_history_eq_cons hhistory] at h
    rcases Outcome.result_andThen_eq_error_iff.mp h with hinverse | ⟨_, _, hrecord⟩
    · simp only [Item.inverse, Command.inverse_eq, bind_apply, retreat_apply] at hinverse
      cases hback : m.pointer.previous? m.program.length with
      | none =>
        rw [hback] at hinverse
        obtain rfl := Except.error.inj hinverse
        exact ⟨_, .atStart hhistory (Pointer.previous?_eq_none_iff_start.mp hback)⟩
      | some p =>
        rw [hback] at hinverse
        exact ⟨_, .resisted hhistory hback (Command.resists_of_error hinverse)⟩
    · cases hrecord

theorem UndoStops.halfUndone (h : m.UndoStops fault n) : m.HalfUndone n := by
  cases h with
  | noHistory empty => exact ⟨by simp [empty], Or.inl rfl, Or.inl rfl, rfl⟩
  | atStart newest => exact ⟨by simp [newest], Or.inl rfl, Or.inl rfl, rfl⟩
  | resisted newest back resists =>
    cases resists with
    | noneSaved => exact ⟨by simp [newest], Or.inr back, Or.inr ⟨by simp [newest], rfl⟩, rfl⟩
    | firstCell | noOutput | noPartner => exact ⟨by simp [newest], Or.inr back, Or.inl rfl, rfl⟩

/-- The pointer moves before an inverse resists, and nothing moves it back. -/
theorem UndoStops.historyOnly_iff (h : m.UndoStops fault n) :
    n = { m with history := m.history.tail } ↔ m.history = [] ∨ m.pointer = .start := by
  cases h with
  | noHistory empty =>
    have hsame : m = { m with history := m.history.tail } := by rw [empty, List.tail_nil, ← empty]
    exact iff_of_true hsame (Or.inl empty)
  | atStart newest start =>
    rw [newest]
    exact iff_of_true rfl (Or.inr start)
  | @resisted c rest p _ _ newest back resists =>
    have hpointer : n.pointer = p := by cases resists <;> rfl
    refine iff_of_false ?_ ?_
    · intro hn
      rw [hn] at hpointer
      have hpointer : m.pointer = p := hpointer
      rw [← hpointer] at back
      exact Pointer.previous?_ne_self back
    · rintro (empty | start)
      · cases empty.symm.trans newest
      · rw [start] at back
        cases back

/--
An undo of a command fails in the listed ways and in no others. It tells nothing then, and it has taken back no more
than the newest entry of the history, one move of the pointer and one byte of input. Nothing but the history has
changed exactly when there was nothing to undo or the pointer was before the first instruction.
-/
theorem undo_failed (after : m.AfterCommand) :
    (∀ fault n, undo m = ⟨.error fault, n, []⟩ ↔ m.UndoStops fault n) ∧
      ∀ fault, (undo m).result = .error fault →
        (undo m).events = [] ∧ m.HalfUndone (undo m).machine ∧
          ((undo m).machine = { m with history := m.history.tail } ↔ m.history = [] ∨ m.pointer = .start) := by
  constructor
  · intro fault n
    constructor
    · intro h
      have stops := undoStops_of_error after (congrArg Outcome.result h)
      rwa [h] at stops
    · intro stops
      exact stops.undo
  · intro fault h
    have stops := undoStops_of_error after h
    refine ⟨?_, stops.halfUndone, stops.historyOnly_iff⟩
    rw [stops.undo]

/-- A byte that is given back although it stays on the tape, since the caller has emptied the saved cells. -/
theorem undo_failed_none_saved :
    let m : Machine :=
      { start [.command .accept] [5] with
        tape := ⟨[], 5, []⟩, pointer := .finish, history := [.command .accept], input := [] }
    (∃ exchanges, Session.Course ⟨start [.command .accept] [5], []⟩ exchanges ⟨m, []⟩ ∧
        exchanges.map Exchange.request = [.step, .step, .call .cellsClear]) ∧
      m.AfterCommand ∧ m.UndoStops .emptyBuffer { m with history := [], pointer := .on 0, input := [5] } ∧
      m.HalfUndone { m with history := [], pointer := .on 0, input := [5] } := by
  intro m
  have course : Session.Course ⟨start [.command .accept] [5], []⟩ _ ⟨m, []⟩ :=
    ((Session.Course.begin.next (rfl : Session.perform 0 _ .step = some _)).next
      (rfl : Session.perform 0 _ .step = some _)).next (rfl : Session.perform 0 _ (.call .cellsClear) = some _)
  have after : m.AfterCommand := fun item hitem => ⟨.accept, (Option.some.inj hitem).symm⟩
  obtain ⟨stops, failed⟩ := undo_failed after
  exact ⟨⟨_, course, rfl⟩, after, (stops _ _).mp rfl, (failed .emptyBuffer rfl).2.1⟩

/-- After the caller has moved the cursor back to the first cell, an undo moves the pointer back and fails. -/
theorem undo_failed_first_cell :
    ¬∀ (commands : List Command) (input : List Cell) (events : List Event) (s : Session),
      Session.Handled ⟨start (commands.map .command) input, []⟩ events s →
        ∀ fault, (undo s.machine).result = .error fault →
          (undo s.machine).machine = { s.machine with history := (undo s.machine).machine.history } := by
  intro claim
  have handled : Session.Handled ⟨start [.command .moveRight] [], []⟩ _ _ :=
    ((Session.Handled.begin.request (rfl : Session.perform 0 _ .step = some _)).request
      (rfl : Session.perform 0 _ .step = some _)).request (rfl : Session.perform 0 _ (.call .moveLeft) = some _)
  have unmoved := claim [.moveRight] [] _ _ handled .tapeUnderflow rfl
  have hpointer : Pointer.on 0 = Pointer.finish := congrArg Machine.pointer unmoved
  cases hpointer

end Machine

end Rewind
