import Rewind.Proofs.Replay

/-!
# Undone steps are made again

`Machine.Reaches o m` says that some steps lead from `o` to `m`, but for trailing zero cells. Steps and undos stay among
the machines that are reached from a machine without history (`Reaches.step`, `Reaches.undo`). An undo never makes a
new cell, and the step after it has no need of one, so that the undone steps, made again, lead to the very machine that
was undone: `Reaches.redo`, and `Session.Course.undo_redo` for whatever a session has come to.
-/

namespace Rewind

open Rewind.Action

namespace Machine

variable {o m : Machine}

/-- Some steps lead from one machine to the other, but for trailing zero cells. -/
def Reaches (o m : Machine) : Prop := ∃ steps f k, Repeats step o steps f ∧ m = f.pad k

theorem Reaches.refl (o : Machine) : o.Reaches o := ⟨[], o, 0, .none o, o.pad_zero.symm⟩

theorem Reaches.step (regular : o.Regular) (reaches : o.Reaches m) : o.Reaches (step m).machine := by
  obtain ⟨steps, f, k, run, rfl⟩ := reaches
  obtain ⟨j, hj⟩ := step_pad f k
  rw [hj]
  cases hr : (Machine.step f).result with
  | ok a => exact ⟨steps ++ [a], _, j, run.append (repeats_one hr), rfl⟩
  | error fault =>
    rw [step_of_error (regular.repeats run) hr]
    exact ⟨steps, f, j, run, rfl⟩

/-- The undo of the newest instruction goes back to before it, and the step from there leads to the same machine. -/
theorem Reaches.undo_cons (regular : o.Regular) (ho : o.history = []) (reaches : o.Reaches m) {item : Item}
    {rest : List Item} (hm : m.history = item :: rest) :
    ∃ u es, undo m = ⟨.ok item, u, es⟩ ∧ o.Reaches u ∧ u.history = rest ∧
      (Machine.step u).result = .ok (some item) ∧ (Machine.step u).machine = m := by
  obtain ⟨steps, f, k, run, rfl⟩ := reaches
  have hf : f.history = item :: rest := hm
  obtain ⟨earlier, g, newest, hearlier, result, rfl⟩ := exists_last_step regular ho run (by simp [hf])
  have hg := regular.repeats hearlier
  obtain ⟨rfl, rfl⟩ : newest = item ∧ g.history = rest := by
    rw [step_history hg result] at hf
    exact List.cons.inj hf
  obtain ⟨j, es, -, hundo, hstep⟩ := undo_of_step hg result k
  refine ⟨g.pad j, _, hundo, ⟨earlier, g, j, hearlier, rfl⟩, rfl, ?_, ?_⟩
  · rw [hstep]
    exact result
  · rw [hstep]
    rfl

theorem Reaches.undo (regular : o.Regular) (ho : o.history = []) (reaches : o.Reaches m) :
    o.Reaches (undo m).machine := by
  cases hm : m.history with
  | nil =>
    rw [undo_of_history_eq_nil hm]
    exact reaches
  | cons item rest =>
    obtain ⟨u, es, hundo, hu, -⟩ := reaches.undo_cons regular ho hm
    rw [hundo]
    exact hu

/-- As many steps as were undone lead back to the same machine. -/
theorem Reaches.redo (regular : o.Regular) (ho : o.history = []) (reaches : o.Reaches m) {k : Nat}
    (hk : k ≤ m.history.length) :
    ∃ u, Repeats Machine.undo m (m.history.take k) u ∧
      Repeats Machine.step u ((m.history.take k).reverse.map some) m := by
  induction k generalizing m with
  | zero => exact ⟨m, .none m, .none m⟩
  | succ k ih =>
    cases hm : m.history with
    | nil => simp [hm] at hk
    | cons item rest =>
      obtain ⟨u, es, hundo, hu, rfl, result, hback⟩ := reaches.undo_cons regular ho hm
      obtain ⟨v, hundos, hsteps⟩ := ih hu (by simpa [hm] using hk)
      refine ⟨v, ?_, ?_⟩
      · rw [List.take_succ_cons]
        refine .once (by rw [hundo]) ?_
        rw [hundo]
        exact hundos
      · rw [List.take_succ_cons, List.reverse_cons, List.map_append]
        have hlast := repeats_one result
        rw [hback] at hlast
        exact hsteps.append hlast

end Machine

/--
Whatever a session on a program of commands has come to, any number of instructions of its history can be undone, and as
many steps then succeed with the same instructions, last undone first, and lead to the same machine, its tape as long as
it was.
-/
theorem Session.Course.undo_redo {commands : List Command} {input : List Cell} {exchanges : List Exchange} {s : Session}
    (course : Course ⟨.start (commands.map .command) input, []⟩ exchanges s)
    (drives : ∀ x ∈ exchanges, x.request.Drives) {k : Nat} (hk : k ≤ s.machine.history.length) :
    ∃ undone u, undone.length = k ∧ undone <+: s.machine.history ∧ Repeats Machine.undo s.machine undone u ∧
      Repeats Machine.step u (undone.reverse.map some) s.machine := by
  have straight := course.straight drives
  obtain ⟨u, hundos, hsteps⟩ := Machine.Reaches.redo (Machine.regular_primed commands input _) rfl straight hk
  exact ⟨_, u, List.length_take_of_le hk, List.take_prefix _ _, hundos, hsteps⟩

/-- All of a loop is undone and made again, and the byte that it began with is read before the one that came first. -/
theorem Session.Course.undo_redo_late_input :
    ∃ exchanges s undone u,
      Course ⟨.start ([.moveRight, .accept, .openLoop, .decrement, .closeLoop].map .command) [], []⟩ exchanges s ∧
        exchanges.map Exchange.request =
          [.run none, .call (.supplyInput [1]), .step, .undo, .call (.supplyInput [2]), .run none] ∧
        s.machine.tape.cells = [0, 0] ∧ s.machine.input = [1] ∧ undone.length = 7 ∧
        Repeats Machine.undo s.machine undone u ∧ Repeats Machine.step u (undone.reverse.map some) s.machine := by
  have waiting :
      Course ⟨.start ([.moveRight, .accept, .openLoop, .decrement, .closeLoop].map .command) [], []⟩ _ _ :=
    .next .begin (rfl : perform 4 _ (.run none) = some _)
  have undone := ((waiting.next (rfl : perform 0 _ (.call (.supplyInput [1])) = some _)).next
    (rfl : perform 0 _ .step = some _)).next (rfl : perform 0 _ .undo = some _)
  have course := (undone.next (rfl : perform 0 _ (.call (.supplyInput [2])) = some _)).next
    (rfl : perform 8 _ (.run none) = some _)
  obtain ⟨undone, u, hlen, -, hundos, hsteps⟩ := undo_redo course (by simp [Request.Drives]) (Nat.le_refl 7)
  exact ⟨_, _, undone, u, course, rfl, rfl, rfl, hlen, hundos, hsteps⟩

end Rewind
