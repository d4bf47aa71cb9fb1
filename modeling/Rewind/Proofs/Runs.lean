import Mathlib.Data.List.ReduceOption
import Rewind.Proofs.Repetition
import Rewind.Proofs.Stepping

/-!
# Runs

A run is a step repeated, on a program of commands. Its positions stay in the program (`Regular.repeats`). The first
step of a run may only enter the program; from `Machine.entry` on every step executes an instruction
(`Machine.repeats_entry`).
-/

namespace Rewind.Machine

open Rewind.Action

variable {m n s t : Machine}

theorem Regular.repeats {items : List (Option Item)} (regular : m.Regular) (run : Repeats Machine.step m items n) :
    n.Regular := by
  induction run with
  | none => exact regular
  | once _ _ ih => exact ih regular.step

theorem repeats_program {steps : List (Option Item)} (regular : m.Regular) (run : Repeats step m steps n) :
    n.program = m.program := by
  induction run with
  | none => rfl
  | once _ _ ih => rw [ih regular.step, step_program regular]

theorem repeats_staged {steps : List (Option Item)} (regular : m.Regular) (run : Repeats step m steps n) :
    n.staged = m.staged := by
  induction run with
  | none => rfl
  | once _ _ ih => rw [ih regular.step, step_staged regular]

theorem pointer_ne_start_of_repeats {items : List (Option Item)} (regular : m.Regular)
    (run : Repeats Machine.step m items n) (hitems : items ≠ []) : n.pointer ≠ .start := by
  induction run with
  | none => exact absurd rfl hitems
  | once result rest ih =>
    cases rest with
    | none => exact pointer_ne_start_of_step regular result
    | once => exact ih regular.step (by simp)

/-- From inside the program every step of a run executes an instruction. -/
theorem executed_of_repeats {items : List (Option Item)} (regular : m.Regular) (hp : m.pointer ≠ .start)
    (run : Repeats Machine.step m items n) : items = items.reduceOption.map some := by
  induction run with
  | none => rfl
  | once result _ ih =>
    have hrest := ih regular.step (pointer_ne_start_of_step regular result)
    rcases step_value regular result with ⟨hstart, -⟩ | ⟨-, item, rfl⟩
    · exact absurd hstart hp
    · rw [List.reduceOption_cons_of_some, List.map_cons, ← hrest]

/-- Where the instructions of a run begin: from before the program the first step only enters it. -/
def entry (s : Machine) (items : List (Option Item)) : Machine :=
  if s.pointer = .start ∧ items ≠ [] then (Machine.step s).machine else s

/-- A run executes its instructions from its entry on. -/
theorem repeats_entry {items : List (Option Item)} (regular : s.Regular) (run : Repeats Machine.step s items t) :
    (s.entry items).Regular ∧ Repeats Machine.step (s.entry items) (items.reduceOption.map some) t := by
  cases run with
  | none => exact ⟨by simpa [entry] using regular, by simpa [entry] using Repeats.none s⟩
  | @once _ _ a as result rest =>
    rcases step_value regular result with ⟨hstart, rfl⟩ | ⟨hp, item, rfl⟩
    · rw [entry, if_pos ⟨hstart, by simp⟩, List.reduceOption_cons_of_none,
        ← executed_of_repeats regular.step (pointer_ne_start_of_step regular result) rest]
      exact ⟨regular.step, rest⟩
    · have run : Repeats Machine.step s (some item :: as) t := .once result rest
      rw [entry, if_neg (fun h => hp h.1), ← executed_of_repeats regular hp run]
      exact ⟨regular, run⟩

/-- When something has been executed since the start, the last step of the run executed the newest instruction. -/
theorem exists_last_step {steps : List (Option Item)} (regular : m.Regular) (hm : m.history = [])
    (run : Repeats step m steps n) (hn : n.history ≠ []) :
    ∃ earlier f item, Repeats step m earlier f ∧ (step f).result = .ok (some item) ∧ (step f).machine = n := by
  rcases List.eq_nil_or_concat steps with rfl | ⟨earlier, a, rfl⟩
  · obtain rfl := repeats_nil_iff.mp run
    exact absurd hm hn
  · rw [List.concat_eq_append] at run
    obtain ⟨f, hearlier, hlast⟩ := repeats_append_iff.mp run
    obtain ⟨result, hend⟩ := repeats_cons_iff.mp hlast
    obtain rfl := repeats_nil_iff.mp hend
    have hf := regular.repeats hearlier
    cases a with
    | some item => exact ⟨earlier, f, item, hearlier, result, rfl⟩
    | none =>
      -- Only the very first step can execute nothing.
      exfalso
      have hstart : f.pointer = .start := by
        rcases step_value hf result with ⟨hstart, -⟩ | ⟨-, item, hitem⟩
        · exact hstart
        · cases hitem
      cases hearlier with
      | none =>
        apply hn
        rw [step_history regular result, hm]
        rfl
      | once first rest =>
        exact pointer_ne_start_of_repeats regular (.once first rest) (by simp) hstart

end Rewind.Machine
