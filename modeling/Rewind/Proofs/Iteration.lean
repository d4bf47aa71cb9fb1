import Mathlib.Logic.Function.Iterate
import Rewind.Proofs.Endings

/-!
# Runs as steps made one after the other

On any machine, whatever its instructions do:

- a run with a cap makes one step after the other, as many as the cap allows (`runFor_eq_iterate`), and two runs in a
  row make the steps of one (`runCapped_add`);
- `Loops` tells of the run without a cap as the loop that it is, and that ends exactly as the runs with a sufficient
  cap do (`loops_iff`);
- `run_iterates_step` puts this together.
-/

namespace Rewind

/-- A run that its cap has not cut short: it has come past the end or to a fault. -/
def Outcome.Concluded (o : Outcome (List Cell)) : Prop :=
  o.machine.pointer = .finish ∨ ∃ fault, o.result = .error fault

/-- What a run gives: its output, unless it has failed. -/
def Outcome.withOutput (o : Outcome Unit) : Outcome (List Cell) :=
  ⟨o.result.map fun _ => o.machine.output, o.machine, o.events⟩

namespace Machine

open Rewind.Action

variable {m n : Machine} {o : Outcome (List Cell)}

/-! ## Runs with a cap -/

/-- One step more, unless a step has failed already or the pointer is past the end. -/
def goOn (o : Outcome Unit) : Outcome Unit :=
  match o.result with
  | .error _ => o
  | .ok _ =>
    if o.machine.pointer = .finish then o
    else ⟨(step o.machine).result.map fun _ => (), (step o.machine).machine, o.events ++ (step o.machine).events⟩

theorem goOn_eq (o : Outcome Unit) : goOn o = o.andThen fun _ => runFor 1 := by
  obtain ⟨r, m, es⟩ := o
  cases r with
  | error fault => rfl
  | ok u =>
    rw [Outcome.andThen_ok]
    by_cases hfinish : m.pointer = .finish
    · rw [runFor_of_finish hfinish, List.append_nil]
      exact if_pos hfinish
    · rw [runFor_succ_of_ne hfinish, runFor_zero]
      refine (if_neg hfinish).trans ?_
      rcases step m with ⟨r, n, new⟩
      cases r with
      | ok a => simp [Except.map]
      | error fault => rfl

/-- A run makes one step after the other. -/
theorem runFor_eq_iterate (k : Nat) (m : Machine) : runFor k m = goOn^[k] ⟨.ok (), m, []⟩ := by
  induction k with
  | zero => rfl
  | succ k ih => rw [Function.iterate_succ_apply', ← ih, goOn_eq, runFor_add]

theorem runCapped_eq_withOutput (cap : Int) (m : Machine) : runCapped cap m = (runFor cap.toNat m).withOutput :=
  runCapped_apply cap m

/-- Two runs in a row are one run under both caps together. -/
theorem runCapped_add (a b : Nat) (m : Machine) :
    (do let _ ← runCapped a; runCapped b) m = runCapped (a + b) m := by
  rw [bind_apply, runCapped_eq_withOutput, runCapped_eq_withOutput, Int.toNat_natCast,
    show ((a : Int) + b).toNat = a + b by omega, runFor_add]
  rcases runFor a m with ⟨r, n, es⟩
  cases r with
  | error fault => rfl
  | ok u =>
    show (⟨.ok n.output, n, es⟩ : Outcome (List Cell)).andThen (fun _ => runCapped b) = _
    rw [Outcome.andThen_ok, Outcome.andThen_ok, runCapped_eq_withOutput, Int.toNat_natCast]
    rfl

/-! ## Runs without a cap -/

/-- The run without a cap: the loop that makes steps until the pointer is past the end or a step fails. -/
inductive Loops : Machine → Outcome (List Cell) → Prop
  | finish {m : Machine} (finish : m.pointer = .finish) : Loops m ⟨.ok m.output, m, []⟩
  | failed {m n : Machine} {fault : Fault} {new : List Event} (inside : m.pointer ≠ .finish)
    (failed : step m = ⟨.error fault, n, new⟩) : Loops m ⟨.error fault, n, new⟩
  | stepped {m n : Machine} {a : Option Item} {new : List Event} {o : Outcome (List Cell)}
    (inside : m.pointer ≠ .finish) (stepped : step m = ⟨.ok a, n, new⟩) (rest : Loops n o) :
    Loops m ⟨o.result, o.machine, new ++ o.events⟩

theorem runCapped_of_finish (h : m.pointer = .finish) (k : Nat) : runCapped k m = ⟨.ok m.output, m, []⟩ := by
  rw [runCapped_eq_withOutput, runFor_of_finish h]
  rfl

theorem runCapped_succ_of_error {fault : Fault} {new : List Event} (inside : m.pointer ≠ .finish)
    (failed : step m = ⟨.error fault, n, new⟩) (k : Nat) : runCapped (k + 1 : Nat) m = ⟨.error fault, n, new⟩ := by
  rw [runCapped_eq_withOutput, Int.toNat_natCast, runFor_succ_of_ne inside, failed]
  rfl

theorem runCapped_succ_of_ok {a : Option Item} {new : List Event} (inside : m.pointer ≠ .finish)
    (stepped : step m = ⟨.ok a, n, new⟩) (k : Nat) : runCapped (k + 1 : Nat) m =
      ⟨(runCapped k n).result, (runCapped k n).machine, new ++ (runCapped k n).events⟩ := by
  rw [runCapped_eq_withOutput, runCapped_eq_withOutput, Int.toNat_natCast, Int.toNat_natCast,
    runFor_succ_of_ne inside, stepped]
  rfl

/-- The loop ends as a run under some cap that was not cut short. -/
theorem loops_iff : Loops m o ↔ ∃ k : Nat, o = runCapped k m ∧ o.Concluded := by
  constructor
  · intro h
    induction h with
    | finish finish => exact ⟨0, (runCapped_of_finish finish 0).symm, Or.inl finish⟩
    | failed inside failed => exact ⟨1, (runCapped_succ_of_error inside failed 0).symm, Or.inr ⟨_, rfl⟩⟩
    | stepped inside stepped rest ih =>
      obtain ⟨k, rfl, concluded⟩ := ih
      exact ⟨k + 1, (runCapped_succ_of_ok inside stepped k).symm, concluded⟩
  · rintro ⟨k, rfl, concluded⟩
    induction k generalizing m with
    | zero =>
      rcases concluded with finish | ⟨fault, hfault⟩
      · exact .finish finish
      · cases hfault
    | succ k ih =>
      by_cases finish : m.pointer = .finish
      · rw [runCapped_of_finish finish]
        exact .finish finish
      · rcases hstep : step m with ⟨r, n, new⟩
        cases r with
        | error fault =>
          rw [runCapped_succ_of_error finish hstep]
          exact .failed finish hstep
        | ok a =>
          rw [runCapped_succ_of_ok finish hstep] at concluded ⊢
          exact .stepped finish hstep (ih concluded)

/-- A run that was not cut short is the same under every higher cap. -/
theorem runCapped_eq_of_concluded {cap cap' : Int} (h : (runCapped cap m).Concluded) (hle : cap ≤ cap') :
    runCapped cap' m = runCapped cap m := by
  obtain ⟨d, hd⟩ : ∃ d, cap'.toNat = cap.toNat + d := ⟨cap'.toNat - cap.toNat, by omega⟩
  rw [runCapped_eq_withOutput] at h ⊢
  rw [runCapped_eq_withOutput, hd, runFor_add_of_ended]
  intro u hu
  rcases h with finish | ⟨fault, hfault⟩
  · exact finish
  · rw [Outcome.withOutput, hu] at hfault
    cases hfault

theorem loops_of_concluded {cap : Int} (h : (runCapped cap m).Concluded) : Loops m (runCapped cap m) := by
  refine loops_iff.mpr ⟨cap.toNat, ?_, h⟩
  rw [runCapped_eq_withOutput, runCapped_eq_withOutput, Int.toNat_natCast]

/-- The loop ends as the run with an allowance does, if that suffices. -/
theorem loops_iff_runWithin? : Loops m o ↔ ∃ allowance, m.runWithin? allowance = some o := by
  rw [loops_iff]
  refine exists_congr fun k => ?_
  rw [runWithin?_eq_some_iff]
  refine and_congr_right fun _ => ?_
  constructor
  · rintro (finish | ⟨fault, hfault⟩) output hok
    · exact finish
    · cases hok.symm.trans hfault
  · intro h
    cases hr : o.result with
    | ok output => exact Or.inl (h output hr)
    | error fault => exact Or.inr ⟨fault, hr⟩

/-- The loop ends in one way only. -/
theorem Loops.unique {o' : Outcome (List Cell)} (h : Loops m o) (h' : Loops m o') : o = o' := by
  obtain ⟨a, ha⟩ := loops_iff_runWithin?.mp h
  obtain ⟨b, hb⟩ := loops_iff_runWithin?.mp h'
  exact runWithin?_unique ha hb

/--
On any machine: a run makes one step after the other until its cap, the end of the program or a fault. Two runs in a
row are one under both caps together. The run without a cap ends exactly if some cap does not cut a run short, and then
as the runs under that cap and all higher ones do.
-/
theorem run_iterates_step (m : Machine) :
    (∀ cap : Int, runCapped cap m = (goOn^[cap.toNat] ⟨.ok (), m, []⟩).withOutput) ∧
      (∀ a b : Int, 0 ≤ a → 0 ≤ b → (do let _ ← runCapped a; runCapped b) m = runCapped (a + b) m) ∧
      (∀ o, Loops m o ↔ ∃ allowance, m.runWithin? allowance = some o) ∧
      ((∃ o, Loops m o) ↔ ∃ cap, (runCapped cap m).Concluded) ∧
      ∀ cap, (runCapped cap m).Concluded → ∀ cap', cap ≤ cap' → ∀ o, Loops m o ↔ o = runCapped cap' m := by
  refine ⟨fun cap => ?_, fun a b ha hb => ?_, fun o => loops_iff_runWithin?, ?_, ?_⟩
  · rw [← runFor_eq_iterate, runCapped_eq_withOutput]
  · obtain ⟨a, rfl⟩ := Int.eq_ofNat_of_zero_le ha
    obtain ⟨b, rfl⟩ := Int.eq_ofNat_of_zero_le hb
    exact runCapped_add a b m
  · constructor
    · rintro ⟨o, loops⟩
      obtain ⟨k, rfl, concluded⟩ := loops_iff.mp loops
      exact ⟨k, concluded⟩
    · rintro ⟨cap, concluded⟩
      exact ⟨_, loops_of_concluded concluded⟩
  · intro cap concluded cap' hle o
    rw [runCapped_eq_of_concluded concluded hle]
    constructor
    · intro loops
      exact loops.unique (loops_of_concluded concluded)
    · rintro rfl
      exact loops_of_concluded concluded

/-- An instruction that fails after it has moved the cursor ends every run that gets to it, and the move stays. -/
theorem run_iterates_step_stop :
    let m := start [.command .increment, .custom "stop" [.moveRight, .fail "stop"] []] []
    (runCapped 3 m).Concluded ∧ Loops m (runCapped 7 m) ∧ (runCapped 7 m).machine.tape.cursor = 1 ∧
      ¬(runCapped 2 m).Concluded ∧ (do let _ ← runCapped 2; runCapped 5) m = runCapped 7 m := by
  intro m
  obtain ⟨-, add, -, -, limit⟩ := run_iterates_step m
  have concluded : (runCapped 3 m).Concluded := Or.inr ⟨_, rfl⟩
  refine ⟨concluded, (limit 3 concluded 7 (by decide) _).mpr rfl, rfl, ?_, add 2 5 (by decide) (by decide)⟩
  rintro (finish | ⟨fault, hfault⟩)
  · cases finish
  · cases hfault

end Machine

end Rewind
