import Rewind.Proofs.Course
import Rewind.Proofs.Stepping

/-!
# Effects wherever the pointer is

A caller can apply the effect of a command at any position, also where there is no instruction. The work of the command
comes first, and what it does stays when the pointer cannot go on from the end of the program.

- `Command.Fails` lists how an effect fails, each with the machine that is left (`Command.forward_eq_error_iff`);
- work that is no loop command's always shows (`Command.Works.ne`);
- `Command.forward_failed` says that an effect which fails has changed the machine exactly past the end, after such
  work, and `Command.forward_failed_past_end` is an increment there.
-/

namespace Rewind

open Rewind.Action

namespace Command

variable {m n w : Machine} {c : Command} {fault : Fault} {es : List Event}

/-! ## How an effect fails -/

/-- How the effect of a command fails, the machine that is left then and what has happened. -/
inductive Fails (m : Machine) (c : Command) : Fault → Machine → List Event → Prop
  | balked {fault : Fault} (balks : Balks m c fault) : Fails m c fault m []
  /-- The work is done before the pointer turns out to be past the end. -/
  | pastEnd {w : Machine} {es : List Event} (finish : m.pointer = .finish) (stays : ¬c.Jumps m.tape.here)
    (works : Works m c w es) : Fails m c .pastEnd w es

theorem Fails.forward (h : Fails m c fault n es) : c.forward m = ⟨.error fault, n, es⟩ := by
  rw [forward_eq, bind_apply]
  cases h with
  | balked balks => rw [balks.work, Outcome.andThen_error]
  | pastEnd finish stays works =>
    have finish' : n.pointer = .finish := works.pointer_eq.trans finish
    rw [works.work stays, Outcome.andThen_ok, Machine.advance_apply, finish']
    simp [Pointer.next?, Machine.movedTo]

/-- An effect that does not fail in one of these ways succeeds. -/
theorem fails_or_succeeds (wellFormed : m.WellFormed) (c : Command) :
    (∃ fault n es, Fails m c fault n es) ∨ (c.forward m).result = .ok () := by
  have worked := work_worked wellFormed c
  rw [forward_eq, bind_apply]
  generalize c.work m = o at worked
  cases worked with
  | @done w es stays works =>
    by_cases finish : m.pointer = .finish
    · exact Or.inl ⟨_, _, _, .pastEnd finish stays works⟩
    · have inside : w.pointer ≠ .finish := by rwa [works.pointer_eq]
      rw [Outcome.andThen_ok, Machine.advance_apply]
      right
      cases hp : w.pointer with
      | start | on => rfl
      | finish => exact absurd hp inside
  | jumped =>
    -- After a jump the pointer is on an instruction.
    rw [Outcome.andThen_ok, Machine.advance_apply]
    exact Or.inr rfl
  | balked balks => exact Or.inl ⟨_, _, _, .balked balks⟩

theorem forward_eq_error_iff (wellFormed : m.WellFormed) :
    c.forward m = ⟨.error fault, n, es⟩ ↔ Fails m c fault n es := by
  constructor
  · intro h
    rcases fails_or_succeeds wellFormed c with ⟨fault', n', es', fails⟩ | succeeds
    · have hsame := h.symm.trans fails.forward
      obtain ⟨hfault, rfl, rfl⟩ := Outcome.mk.inj hsame
      obtain rfl := Except.error.inj hfault
      exact fails
    · rw [h] at succeeds
      cases succeeds
  · exact Fails.forward

/-! ## What an effect that fails has changed -/

/-- The work of a command that is no bracket shows on the tape, in the output or in the input. -/
theorem Works.ne (works : Works m c w es) (plain : c.bracket? = none) : w ≠ m := by
  intro hsame
  cases works with
  | moveRight =>
    have htape : m.tape.moveRight = m.tape := congrArg Machine.tape hsame
    have hcursor := congrArg Tape.cursor htape
    rw [Tape.cursor_right] at hcursor
    omega
  | @moveLeft t moved =>
    have htape : t = m.tape := congrArg Machine.tape hsame
    have hcursor := Tape.cursor_left moved
    rw [htape] at hcursor
    omega
  | increment =>
    have hhere : m.tape.here + 1 = m.tape.here := congrArg (fun k : Machine => k.tape.here) hsame
    simp at hhere
  | decrement =>
    have hhere : m.tape.here - 1 = m.tape.here := congrArg (fun k : Machine => k.tape.here) hsame
    grind
  | emit =>
    have hemitted : m.tape.here :: m.emitted = m.emitted := congrArg Machine.emitted hsame
    simp at hemitted
  | @accept value rest taken =>
    have hinput : rest = m.input := congrArg Machine.input hsame
    rw [taken] at hinput
    simp at hinput
  | openLoop | closeLoop => cases plain

theorem Works.eq_of_bracket (works : Works m c w es) (loop : c.bracket? ≠ none) : w = m := by
  cases works with
  | openLoop | closeLoop => rfl
  | _ => exact absurd rfl loop

/-- Past the end a command that is no bracket balks for other reasons than its place. -/
theorem Balks.ne_pastEnd (balks : Balks m c fault) (finish : m.pointer = .finish) : fault ≠ .pastEnd := by
  cases balks with
  | firstCell | dry | nowhere => simp [Fault.waiting]
  | unpaired _ on => cases on.symm.trans finish

/--
The effect of a command fails in the listed ways and in no others. It has changed the machine then exactly where the
pointer was past the end and the work of a command that is no bracket was done before that came out.
-/
theorem forward_failed (wellFormed : m.WellFormed) (c : Command) :
    (∀ fault n es, c.forward m = ⟨.error fault, n, es⟩ ↔ Fails m c fault n es) ∧
      ∀ fault, (c.forward m).result = .error fault →
        ((c.forward m).machine ≠ m ↔ m.pointer = .finish ∧ c.bracket? = none ∧ fault = .pastEnd) := by
  refine ⟨fun fault n es => forward_eq_error_iff wellFormed, fun fault h => ?_⟩
  have fails : Fails m c fault (c.forward m).machine (c.forward m).events :=
    (forward_eq_error_iff wellFormed).mp (by rw [← h])
  generalize (c.forward m).machine = n at fails
  generalize (c.forward m).events = es at fails
  cases fails with
  | balked balks =>
    refine iff_of_false (fun hne => hne rfl) ?_
    rintro ⟨finish, -, rfl⟩
    exact balks.ne_pastEnd finish rfl
  | pastEnd finish stays works =>
    constructor
    · intro hne
      by_cases plain : c.bracket? = none
      · exact ⟨finish, plain, rfl⟩
      · exact absurd (works.eq_of_bracket plain) hne
    · rintro ⟨-, plain, -⟩
      exact works.ne plain

/-- Past the end of an empty program a byte of input is taken and stored, and then the pointer cannot go on. -/
theorem forward_failed_input_taken :
    let m : Machine := { Machine.start [] [5] with pointer := .finish }
    let n : Machine := { m with tape := ⟨[], 5, []⟩, input := [], overwritten := [0] }
    (∃ exchanges, Session.Course ⟨.start [] [5], []⟩ exchanges ⟨m, []⟩ ∧
        exchanges.map Exchange.request = [.call .advance]) ∧
      m.WellFormed ∧ accept.Fails m .pastEnd n [.tape (.write 5)] ∧ (accept.forward m).machine ≠ m := by
  intro m n
  have course : Session.Course ⟨.start [] [5], []⟩ _ ⟨m, []⟩ :=
    .next .begin (rfl : Session.perform 0 _ (.call .advance) = some _)
  have wellFormed : m.WellFormed := by decide
  obtain ⟨fails, changed⟩ := forward_failed wellFormed accept
  exact ⟨⟨_, course, rfl⟩, wellFormed, (fails _ _ _).mp rfl, (changed .pastEnd rfl).mpr ⟨rfl, rfl, rfl⟩⟩

/-- An increment that fails past the end has changed the cell. -/
theorem forward_failed_past_end :
    ¬∀ (m : Machine) (c : Command) (fault : Fault), m.WellFormed → (c.forward m).result = .error fault →
      (c.forward m).machine.tape = m.tape ∧ (c.forward m).machine.pointer = m.pointer ∧
        (c.forward m).machine.emitted = m.emitted ∧ (c.forward m).machine.input = m.input ∧
          (c.forward m).machine.overwritten = m.overwritten := by
  intro claim
  obtain ⟨htape, -⟩ := claim { Machine.start [] [] with pointer := .finish } .increment .pastEnd trivial rfl
  have hhere : (1 : Cell) = 0 := congrArg Tape.here htape
  exact absurd hhere (by decide)

end Command

end Rewind
