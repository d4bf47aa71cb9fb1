import Rewind.Proofs.Padding
import Rewind.Proofs.Runs

/-!
# Undo retraces the steps

- `Command.inverse_of_works`: the inverse of a command takes back its work and its move, but for a new trailing zero
  cell; a jump is recognised by the bracket that the pointer comes back to;
- `Machine.undo_of_step` says so of a step, on a padded machine too, where the step can be made again without a new
  cell, and `Machine.undo_repeats_of_steps` of a run;
- `Machine.undo_retraces` follows the way back from any run, state by state.
-/

namespace Rewind

open Rewind.Action

namespace Pointer

theorem previous?_atOrFinish {n i : Nat} (h : i < n) : (atOrFinish n (i + 1)).previous? n = some (on i) := by
  by_cases hlast : i + 1 < n
  · rw [atOrFinish_of_lt hlast]
    rfl
  · obtain rfl : n = i + 1 := by omega
    rw [atOrFinish, if_neg hlast]
    rfl

end Pointer

namespace Command

variable {m w : Machine} {c : Command} {es : List Event} {i j : Nat}

/-- Going back from where a command led. -/
theorem retreat_landed (hp : m.pointer = .atOrFinish m.program.length (j + 1)) (hj : j < m.program.length) :
    Machine.retreat m = ⟨.ok (), { m with pointer := .on j }, []⟩ := by
  rw [Machine.retreat_apply, hp, Pointer.previous?_atOrFinish hj]
  rfl

theorem jumpFrom_of_ne {b : Bracket} (h : m.current?.bind Item.bracket? ≠ some b) :
    Machine.jumpFrom b m = ⟨.ok (), m, []⟩ := by
  simp [Machine.jumpFrom, h]

theorem jumpFrom_of_eq {b : Bracket} (on : m.pointer = .on j) (hi : i < m.program.length)
    (hb : m.program[j]?.bind Item.bracket? = some b) (partner : matchingBracket m.program j = .ok (i : Int)) :
    Machine.jumpFrom b m = ⟨.ok (), { m with pointer := .on i }, []⟩ := by
  have hcurrent : m.current?.bind Item.bracket? = some b := by rw [Machine.current?_on on, hb]
  simp only [Machine.jumpFrom, Machine.jumpToPartner, bind_apply, get_apply, Outcome.andThen_ok, List.nil_append,
    hcurrent, if_pos, on, Pointer.index?, ofExcept_apply, partner]
  simp [Machine.jump_apply, hi]

/-- The inverse of a loop command goes back to the bracket, whether the pointer has jumped or not. -/
theorem jumpFrom_landed {b : Bracket} (on : m.pointer = .on i) (item : m.program[i]? = some (.command c))
    (hc : c.bracket? = some b) (lands : Lands m.program i m.tape.here c j) :
    Machine.jumpFrom b.other { m with pointer := .on j } = ⟨.ok (), m, []⟩ := by
  have hbracket : m.program[i]?.bind Item.bracket? = some b := by simp [item, hc]
  have hsame : { m with pointer := Pointer.on i } = m := by rw [← on]
  cases lands with
  | stays _ =>
    rw [hsame]
    apply jumpFrom_of_ne
    rw [Machine.current?_on on, hbracket]
    exact fun h => b.other_ne (Option.some.inj h).symm
  | jumps _ partner =>
    obtain ⟨hother, hback⟩ := matchingBracket_symm hbracket partner
    have hi : i < m.program.length := (List.getElem?_eq_some_iff.mp item).1
    refine (jumpFrom_of_eq (m := { m with pointer := .on j }) rfl hi hother hback).trans ?_
    exact congrArg (fun n => Outcome.mk (Except.ok ()) n []) hsame

/-- A command that works also works with more zero cells, of which it makes none itself where it has made some. -/
theorem Works.pad (works : Works m c w es) (k : Nat) :
    Works (m.pad (m.tape.growth w.tape + k)) c (w.pad k) es := by
  cases works with
  | moveRight =>
    have hpad : (m.pad (m.tape.growth m.tape.moveRight + k)).tape.moveRight = m.tape.moveRight.pad k :=
      Tape.moveRight_pad_growth m.tape k
    have hworks : Works (m.pad (m.tape.growth m.tape.moveRight + k)) .moveRight _ _ := .moveRight
    rwa [hpad] at hworks
  | @moveLeft t moved =>
    have hpad : (m.tape.pad k).moveLeft? = some (t.pad k) := by rw [Tape.moveLeft?_pad, moved]; rfl
    simp only [Tape.growth_left moved, Nat.zero_add]
    exact .moveLeft (m := m.pad k) hpad
  | increment =>
    simp only [Tape.growth_write, Nat.zero_add]
    exact .increment (m := m.pad k)
  | decrement =>
    simp only [Tape.growth_write, Nat.zero_add]
    exact .decrement (m := m.pad k)
  | emit =>
    simp only [Tape.growth_self, Nat.zero_add]
    exact .emit (m := m.pad k)
  | accept taken =>
    simp only [Tape.growth_write, Nat.zero_add]
    exact .accept (m := m.pad k) taken
  | openLoop =>
    simp only [Tape.growth_self, Nat.zero_add]
    exact .openLoop
  | closeLoop =>
    simp only [Tape.growth_self, Nat.zero_add]
    exact .closeLoop

/-- The inverse of a command takes back what the command did; only the cells by which the tape has grown stay. -/
theorem inverse_of_works (on : m.pointer = .on i) (item : m.program[i]? = some (.command c))
    (works : Works m c w es) (lands : Lands m.program i m.tape.here c j) (hj : j < m.program.length) :
    ∃ es', TapeOnly es' ∧
      c.inverse { w with pointer := .atOrFinish m.program.length (j + 1) } =
        ⟨.ok (), m.pad (m.tape.growth w.tape), es'⟩ := by
  have hretreat : Machine.retreat { w with pointer := .atOrFinish m.program.length (j + 1) } =
      ⟨.ok (), { w with pointer := .on j }, []⟩ :=
    retreat_landed (by rw [works.program_eq]) (by rw [works.program_eq]; exact hj)
  -- Commands that are no brackets have stayed.
  have hback : (∀ value, ¬c.Jumps value) → { w with pointer := Pointer.on j } = w := by
    intro hnever
    cases lands with
    | stays _ => rw [← on, ← works.pointer_eq]
    | jumps jumps _ => exact absurd jumps (hnever _)
  cases works with
  | moveRight =>
    rw [hback fun _ => id] at hretreat
    have hleft := Tape.moveLeft?_moveRight m.tape
    refine ⟨[.tape .left], by simp [TapeOnly], ?_⟩
    simp only [inverse, bind_apply, hretreat, Outcome.andThen_ok, Machine.moveLeft_apply, hleft, Tape.growth_right]
    split <;> rename_i h <;> simp [Machine.pad, Tape.pad, h]
  | moveLeft moved =>
    rw [hback fun _ => id] at hretreat
    refine ⟨[.tape .right], by simp [TapeOnly], ?_⟩
    simp only [inverse, bind_apply, hretreat, Outcome.andThen_ok, Machine.moveRight_apply,
      Tape.moveRight_of_moveLeft? moved, Tape.growth_left moved, Machine.pad_zero, List.nil_append]
  | increment =>
    rw [hback fun _ => id] at hretreat
    refine ⟨[.tape (.write m.tape.here)], by simp [TapeOnly], ?_⟩
    simp only [inverse, bind_apply, hretreat, Outcome.andThen_ok, Machine.updateCell_apply, Tape.here_write,
      UInt8.add_sub_cancel, Tape.write_write, Tape.write_here, Tape.growth_write, Machine.pad_zero, List.nil_append]
  | decrement =>
    rw [hback fun _ => id] at hretreat
    refine ⟨[.tape (.write m.tape.here)], by simp [TapeOnly], ?_⟩
    simp only [inverse, bind_apply, hretreat, Outcome.andThen_ok, Machine.updateCell_apply, Tape.here_write,
      UInt8.sub_add_cancel, Tape.write_write, Tape.write_here, Tape.growth_write, Machine.pad_zero, List.nil_append]
  | emit =>
    rw [hback fun _ => id] at hretreat
    refine ⟨[], by simp [TapeOnly], ?_⟩
    simp only [inverse, bind_apply, hretreat, Outcome.andThen_ok, Machine.unemit_apply, Tape.growth_self,
      Machine.pad_zero, List.nil_append]
  | @accept value rest taken =>
    rw [hback fun _ => id] at hretreat
    refine ⟨[.tape (.write m.tape.here)], by simp [TapeOnly], ?_⟩
    simp only [inverse, bind_apply, hretreat, Outcome.andThen_ok, Machine.readCell_apply, Machine.returnInput_apply,
      Machine.restoreCell_apply, Tape.here_write, Tape.write_write, Tape.write_here, Tape.growth_write, ← taken,
      Machine.pad_zero, List.nil_append]
  | openLoop =>
    refine ⟨[], by simp [TapeOnly], ?_⟩
    have hjump : Machine.jumpFrom .closing { m with pointer := .on j } = ⟨.ok (), m, []⟩ :=
      jumpFrom_landed (b := .opening) on item rfl lands
    simp only [inverse, bind_apply, hretreat, Outcome.andThen_ok, hjump, Tape.growth_self, Machine.pad_zero,
      List.nil_append]
  | closeLoop =>
    refine ⟨[], by simp [TapeOnly], ?_⟩
    have hjump : Machine.jumpFrom .opening { m with pointer := .on j } = ⟨.ok (), m, []⟩ :=
      jumpFrom_landed (b := .closing) on item rfl lands
    simp only [inverse, bind_apply, hretreat, Outcome.andThen_ok, hjump, Tape.growth_self, Machine.pad_zero,
      List.nil_append]

end Command

namespace Machine

variable {m n s t : Machine} {item : Item}

/-! ## One step -/

/--
Undoing a step takes the machine back, but for trailing zero cells, and the step leads from there to the very machine
that was undone: its tape has grown already.
-/
theorem undo_of_step (regular : m.Regular) (h : (step m).result = .ok (some item)) (k : Nat) :
    ∃ j es, Command.TapeOnly es ∧
      undo ((step m).machine.pad k) = ⟨.ok item, m.pad j, es ++ [.undid item.symbol m.pointer]⟩ ∧
      step (m.pad j) = (step m).pad k := by
  have stepped := step_stepped regular
  generalize step m = o at stepped h
  cases stepped with
  | entered | ended | refused => cases h
  | @executed i j c w es on hitem works lands lt =>
    obtain rfl := Option.some.inj (Except.ok.inj h)
    -- With the cells to spare that the command would make, it makes none, and nothing of it stays.
    let roomy := m.pad (m.tape.growth w.tape + k)
    have hworks : c.Works roomy (w.pad k) es := works.pad k
    obtain ⟨es', htape, hinverse⟩ := Command.inverse_of_works (m := roomy) on hitem hworks lands lt
    have hgrowth : roomy.tape.growth (w.pad k).tape = 0 := Tape.growth_pad ..
    rw [hgrowth, pad_zero] at hinverse
    refine ⟨_, es', htape, ?_, step_of_works (m := roomy) on hitem hworks lands⟩
    have hhistory : (w.pad k).history = m.history := works.history_eq
    refine (undo_of_history_eq_cons rfl).trans ?_
    rw [← hhistory]
    show ((c.inverse { w.pad k with pointer := .atOrFinish roomy.program.length (j + 1) }).andThen
      fun _ => recordUndone (.command c)) = _
    rw [hinverse]
    rfl

/-! ## Runs -/

/-- As many undos as there were steps take the machine back, on a padded machine too. -/
theorem undo_repeats_of_steps {items : List Item} (regular : m.Regular)
    (run : Repeats Machine.step m (items.map some) n) (k : Nat) :
    ∃ j, Repeats undo (n.pad k) items.reverse (m.pad j) := by
  induction items generalizing m with
  | nil =>
    obtain rfl := repeats_nil_iff.mp run
    exact ⟨k, .none _⟩
  | cons item items ih =>
    obtain ⟨result, rest⟩ := repeats_cons_iff.mp run
    obtain ⟨j, hundos⟩ := ih regular.step rest
    obtain ⟨j', es, -, hundo, -⟩ := undo_of_step regular result j
    refine ⟨j', ?_⟩
    rw [List.reverse_cons]
    refine hundos.append ?_
    have hlast := repeats_one (x := undo) (a := item) (m := (Machine.step m).machine.pad j) (by rw [hundo])
    rwa [hundo] at hlast

/-- When something has been executed since the start, an undo goes back to before the last step. -/
theorem undo_of_repeats {steps : List (Option Item)} (regular : m.Regular) (hm : m.history = [])
    (run : Repeats Machine.step m steps n) (hn : n.history ≠ []) (k : Nat) :
    ∃ earlier f item j es, Repeats Machine.step m earlier f ∧ (Machine.step f).result = .ok (some item) ∧
      (Machine.step f).machine = n ∧ Command.TapeOnly es ∧
      undo (n.pad k) = ⟨.ok item, f.pad j, es ++ [.undid item.symbol f.pointer]⟩ := by
  obtain ⟨earlier, f, item, hearlier, result, rfl⟩ := exists_last_step regular hm run hn
  obtain ⟨j, es, htape, hundo, -⟩ := undo_of_step (regular.repeats hearlier) result k
  exact ⟨earlier, f, item, j, es, hearlier, result, rfl, htape, hundo⟩

/--
Undoing a run. The undos give the executed instructions back in reverse order, and after `j` of them the machine is
as it was when all but the last `j` of the instructions were executed, but for trailing zero cells.
-/
theorem undo_retraces {items : List (Option Item)} (regular : s.Regular) (run : Repeats Machine.step s items t)
    {j : Nat} (hj : j ≤ items.reduceOption.length) :
    ∃ u v, Repeats undo t (items.reduceOption.reverse.take j) u ∧
      Repeats Machine.step (s.entry items) ((items.reduceOption.take (items.reduceOption.length - j)).map some) v ∧
      u.Extends v ∧ (j = items.reduceOption.length → v = s.entry items) := by
  obtain ⟨hentry, hrun⟩ := repeats_entry regular run
  generalize items.reduceOption = done at *
  rw [← List.take_append_drop (done.length - j) done, List.map_append] at hrun
  obtain ⟨v, hfront, hback⟩ := repeats_append_iff.mp hrun
  obtain ⟨k, hundos⟩ := undo_repeats_of_steps (hentry.repeats hfront) hback 0
  refine ⟨v.pad k, v, ?_, hfront, ⟨k, rfl⟩, ?_⟩
  · rw [List.take_reverse]
    simpa using hundos
  · rintro rfl
    simpa [repeats_nil_iff] using hfront

/-- A loop that was jumped over is undone by jumping back, over a tape that has grown. -/
theorem undo_retraces_skipped_loop :
    let s := start ([.openLoop, .emit, .closeLoop, .moveRight].map .command) []
    ∃ t u, Repeats Machine.step s [none, some (.command .openLoop), some (.command .moveRight)] t ∧
      Repeats undo t [.command .moveRight, .command .openLoop] u ∧ u.Extends (Machine.step s).machine := by
  intro s
  have regular : s.Regular := ⟨⟨_, rfl⟩, trivial⟩
  have run : Repeats Machine.step s [none, some (.command .openLoop), some (.command .moveRight)] _ :=
    .once rfl (.once rfl (.once rfl (.none _)))
  obtain ⟨u, v, hundo, -, hextends, hv⟩ := undo_retraces regular run (Nat.le_refl 2)
  obtain rfl := hv rfl
  exact ⟨_, u, run, hundo, hextends⟩

end Machine

end Rewind
