import Rewind.Proofs.Course
import Rewind.Proofs.Feeding

/-!
# Straight runs

However steps, undos, runs, new input and new beginnings are mixed, the machine is as after some steps of a new
machine that was given the right input at once: first the bytes taken by the instructions that are still in the
history, then the bytes that are pending. `Machine.Straight` states this with trailing zero cells left open; each
action keeps it (`straight_step`, `straight_undo`, `straight_supplyInput`, `straight_restart`), hence every course of a
session does.
-/

namespace Rewind

open Rewind.Action

namespace Machine

variable {program : List Item} {staged taken : List Cell} {m n : Machine}

/-- A machine at the start whose pending input is not the one that it will have after starting over. -/
def primed (program : List Item) (staged input : List Cell) : Machine := (start program staged).fed staged input

/--
The machine is as on a straight run that was given `taken` and what is pending as its input, but for trailing zero
cells.
-/
def Straight (program : List Item) (staged taken : List Cell) (m : Machine) : Prop :=
  ∃ steps f k, Repeats step (primed program staged (taken ++ m.input)) steps f ∧ m = f.pad k

theorem regular_primed (commands : List Command) (staged input : List Cell) :
    (primed (commands.map .command) staged input).Regular := ⟨⟨commands, rfl⟩, trivial⟩

theorem Straight.regular {commands : List Command} {staged taken : List Cell}
    (straight : Straight (commands.map .command) staged taken m) :
    m.Regular ∧ m.program = commands.map .command := by
  obtain ⟨steps, f, k, run, rfl⟩ := straight
  have regular := regular_primed commands staged (taken ++ f.input)
  have hprogram := repeats_program regular run
  have hf := regular.repeats run
  exact ⟨⟨hf.plain, hf.wellFormed⟩, hprogram⟩

section Actions

variable {commands : List Command} {es : List Event}

/-- What a straight run has read of its input is what the events say. -/
theorem taken_of_straight {steps : List (Option Item)}
    (run : Repeats step (primed (commands.map .command) staged (taken ++ m.input)) steps m)
    (staged' rest : List Cell) :
    Repeats step (primed (commands.map .command) staged' (taken ++ rest)) steps (m.fed staged' rest) := by
  obtain ⟨read, hread, -, hrun⟩ := feed_of_repeats (regular_primed commands staged _) run
  have hread : taken ++ m.input = read ++ m.input := hread
  rw [List.append_cancel_right hread]
  exact hrun staged' rest

/-- One byte is taken for each reader in the history. -/
theorem length_of_straight (h : Straight (commands.map .command) staged taken m) : taken.length = m.readers := by
  obtain ⟨steps, f, k, run, rfl⟩ := h
  obtain ⟨read, hread, hreaders, -⟩ := feed_of_repeats (regular_primed commands staged _) run
  have hread : taken ++ f.input = read ++ f.input := hread
  rw [List.append_cancel_right hread]
  exact hreaders.symm

theorem straight_step (h : Straight (commands.map .command) staged (Event.taken es) m) :
    Straight (commands.map .command) staged (Event.taken (es ++ (step m).events)) (step m).machine := by
  obtain ⟨steps, f, k, run, rfl⟩ := h
  have hf := (regular_primed commands staged _).repeats run
  obtain ⟨j, hj⟩ := step_pad f k
  rw [hj]
  cases hr : (step f).result with
  | error fault =>
    rw [step_of_error hf hr]
    refine ⟨steps, f, j, ?_, rfl⟩
    simpa [Outcome.pad] using run
  | ok a =>
    obtain ⟨read, hinput, htaken, -, -⟩ := feed_of_step hf hr
    refine ⟨steps ++ [a], (step f).machine, j, ?_, rfl⟩
    have hsame : Event.taken (es ++ (step f).events) ++ (step f).machine.input = Event.taken es ++ f.input := by
      rw [htaken, List.append_assoc, ← hinput]
    show Repeats step (primed _ staged (Event.taken (es ++ (step f).events) ++ (step f).machine.input)) _ _
    rw [hsame]
    exact run.append (repeats_one hr)

theorem straight_undo (h : Straight (commands.map .command) staged (Event.taken es) m) :
    Straight (commands.map .command) staged (Event.taken (es ++ (undo m).events)) (undo m).machine := by
  obtain ⟨steps, f, k, run, rfl⟩ := h
  have regular := regular_primed commands staged (Event.taken es ++ f.input)
  cases hh : f.history with
  | nil =>
    rw [undo_of_history_eq_nil (m := f.pad k) hh]
    refine ⟨steps, f, k, ?_, rfl⟩
    simpa using run
  | cons newest older =>
    -- The run without its last step is the one that the machine is on after the undo.
    obtain ⟨earlier, g, item, j, es', hearlier, result, rfl, htape, hundo⟩ :=
      undo_of_repeats regular rfl run (by simp [hh]) k
    obtain ⟨last, hlast, -, hlen, -⟩ := feed_of_step (regular.repeats hearlier) result
    obtain ⟨first, hfirst, -⟩ := feed_of_repeats regular hearlier
    have hsplit : Event.taken es = first ++ last := by
      rw [hlast, ← List.append_assoc] at hfirst
      exact List.append_cancel_right hfirst
    have htaken : Event.taken (es ++ (es' ++ [.undid item.symbol g.pointer])) = first := by
      rw [← List.append_assoc, Event.taken_append_undid, Event.taken_append_tapeOnly htape, hsplit]
      split
      · rename_i hsymbol
        rw [Option.map_some, if_pos (congrArg some hsymbol)] at hlen
        obtain ⟨value, rfl⟩ := List.length_eq_one_iff.mp hlen
        rw [List.dropLast_concat]
      · rename_i hsymbol
        rw [Option.map_some, if_neg (fun h => hsymbol (Option.some.inj h))] at hlen
        rw [List.length_eq_zero_iff.mp hlen, List.append_nil]
    rw [hundo]
    refine ⟨earlier, g, j, ?_, rfl⟩
    show Repeats step (primed _ staged (Event.taken (es ++ (es' ++ [.undid item.symbol g.pointer])) ++ g.input)) _ _
    rw [htaken, ← hfirst]
    exact hearlier

theorem straight_supplyInput (data : List Int) (h : Straight (commands.map .command) staged (Event.taken es) m) :
    Straight (commands.map .command) staged (Event.taken (es ++ (supplyInput data m).events))
      (supplyInput data m).machine := by
  rw [supplyInput_apply]
  obtain ⟨steps, f, k, run, rfl⟩ := h
  cases Cell.listOfInts? data with
  | none =>
    refine ⟨steps, f, k, ?_, rfl⟩
    simpa using run
  | some bytes =>
    have hstaged : f.staged = staged := repeats_staged (regular_primed commands staged _) run
    refine ⟨steps, f.fed staged (bytes ++ f.input), k, ?_, by rw [← hstaged]; rfl⟩
    simpa using taken_of_straight run staged (bytes ++ f.input)

theorem straight_restart (h : Straight (commands.map .command) staged (Event.taken es) m) :
    Straight (commands.map .command) staged (Event.taken (es ++ (restart m).events)) (restart m).machine := by
  obtain ⟨steps, f, k, run, rfl⟩ := h
  have regular := regular_primed commands staged (Event.taken es ++ f.input)
  have hprogram : f.program = commands.map .command := repeats_program regular run
  have hstaged : f.staged = staged := repeats_staged regular run
  have hreset : (f.pad k).reset = start (commands.map .command) staged := by rw [← hprogram, ← hstaged]; rfl
  rw [restart_apply, hreset, Event.taken_append_clear]
  exact ⟨[], primed (commands.map .command) staged staged, 0, .none _, by simp [pad, primed, fed, start]⟩

end Actions

end Machine

/-- Every course of a session keeps the machine on a straight run. -/
theorem Session.Course.straight {commands : List Command} {input : List Cell} {slots : List (String × Snapshot)}
    {exchanges : List Exchange} {s : Session}
    (course : Course ⟨.start (commands.map .command) input, slots⟩ exchanges s)
    (drives : ∀ x ∈ exchanges, x.request.Drives) :
    s.machine.Straight (commands.map .command) input (Event.taken (Exchange.events exchanges)) :=
  course.keeps (P := fun es m => m.Straight (commands.map .command) input (Event.taken es)) drives
    (fun _ _ => Machine.straight_step) (fun _ _ => Machine.straight_undo)
    (fun data _ _ => Machine.straight_supplyInput data) (fun _ _ => Machine.straight_restart)
    ⟨[], .start (commands.map .command) input, 0, .none _, by simp⟩

/--
Every course of a session leaves the machine as some steps of a new machine do that is given the right input at once:
the bytes taken by the instructions in the history, one for each reader, then the bytes that are pending. Only
trailing zero cells and the input to start over with can differ.
-/
theorem Session.Course.straight_run {commands : List Command} {input : List Cell} {exchanges : List Exchange}
    {s : Session} (course : Course ⟨.start (commands.map .command) input, []⟩ exchanges s)
    (drives : ∀ x ∈ exchanges, x.request.Drives) :
    (Event.taken (Exchange.events exchanges)).length = s.machine.readers ∧
      ∃ steps f k,
        Repeats Machine.step
          (.start (commands.map .command) (Event.taken (Exchange.events exchanges) ++ s.machine.input)) steps f ∧
        s.machine = { f.pad k with staged := input } := by
  have straight := course.straight drives
  refine ⟨Machine.length_of_straight straight, ?_⟩
  obtain ⟨steps, f, k, run, hs⟩ := straight
  have hinput : s.machine.input = f.input := by rw [hs]; rfl
  rw [hinput] at run ⊢
  have hstaged : f.staged = input := Machine.repeats_staged (Machine.regular_primed commands input _) run
  refine ⟨steps, _, k, Machine.taken_of_straight run (Event.taken (Exchange.events exchanges) ++ f.input) f.input, ?_⟩
  rw [hs, ← hstaged]
  rfl

/-- Input comes late, is taken back and is overtaken by other input. -/
theorem Session.Course.straight_run_late_input :
    ∃ exchanges s, Course ⟨.start ([.accept, .emit].map .command) [], []⟩ exchanges s ∧
      exchanges.map Exchange.request =
        [.step, .step, .call (.supplyInput [7]), .step, .undo, .call (.supplyInput [9]), .run none] ∧
      s.machine.output = [9] ∧
      ∃ steps f k, Repeats Machine.step (.start ([.accept, .emit].map .command) [9, 7]) steps f ∧
        s.machine = { f.pad k with staged := [] } := by
  have waiting : Course ⟨.start ([.accept, .emit].map .command) [], []⟩ _ _ :=
    .next (.next .begin (rfl : perform 0 _ .step = some _)) (rfl : perform 0 _ .step = some _)
  have undone := ((waiting.next (rfl : perform 0 _ (.call (.supplyInput [7])) = some _)).next
    (rfl : perform 0 _ .step = some _)).next (rfl : perform 0 _ .undo = some _)
  have course := (undone.next (rfl : perform 0 _ (.call (.supplyInput [9])) = some _)).next
    (rfl : perform 3 _ (.run none) = some _)
  obtain ⟨-, steps, f, k, run, hs⟩ := straight_run course (by simp [Request.Drives])
  exact ⟨_, _, course, rfl, rfl, steps, f, k, run, hs⟩

end Rewind
