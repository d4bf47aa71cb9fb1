import Rewind.Proofs.Runs

/-!
# How runs end

A run goes on until the pointer is past the end or a step fails, and then no further step succeeds. So a run without a
limit ends in one way only, however many steps it was allowed (`RunEnds.unique`).

- `Machine.runFor_add`: a run can be made in two parts, and `Machine.runWithin?_unique`: further steps change nothing
  once it has ended;
- `Machine.runFor_of_repeats`: the steps at the beginning of a run can be made one by one;
- `Machine.repeats_of_runFor`: a run is made of steps, and at a fault it has stopped at the step that failed;
- `Machine.runEnds_iff` describes the run without a limit by both.
-/

namespace Rewind.Machine

open Rewind.Action

variable {m n : Machine} {r : Except Fault (List Cell)}

/-- A run that has come this far ends here, with this result. -/
inductive Ended (n : Machine) : Except Fault (List Cell) → Prop
  | finish (finish : n.pointer = .finish) : Ended n (.ok n.output)
  | failed {fault : Fault} (inside : n.pointer ≠ .finish) (failed : step n = ⟨.error fault, n, []⟩) :
    Ended n (.error fault)

/-- The run without a limit ends with this result and leaves this machine behind. -/
def RunEnds (m : Machine) (r : Except Fault (List Cell)) (n : Machine) : Prop :=
  ∃ allowance o, m.runWithin? allowance = some o ∧ o.result = r ∧ o.machine = n

/-! ## Where no step succeeds -/

theorem step_of_finish (h : m.pointer = .finish) : step m = ⟨.error .pastEnd, m, []⟩ := by
  rw [step_of_current?_eq_none (by simp [current?, h, Pointer.index?]), advance_apply, h]
  rfl

theorem pointer_ne_finish_of_step {a : Option Item} (h : (step m).result = .ok a) : m.pointer ≠ .finish := by
  intro hfinish
  rw [step_of_finish hfinish] at h
  cases h

theorem Ended.step_eq (h : Ended n r) : ∃ fault, step n = ⟨.error fault, n, []⟩ := by
  cases h with
  | finish finish => exact ⟨_, step_of_finish finish⟩
  | failed _ failed => exact ⟨_, failed⟩

theorem Ended.unique {r' : Except Fault (List Cell)} (h : Ended n r) (h' : Ended n r') : r = r' := by
  cases h with
  | finish finish =>
    cases h' with
    | finish => rfl
    | failed inside => exact absurd finish inside
  | failed inside failed =>
    cases h' with
    | finish finish => exact absurd finish inside
    | failed _ failed' => rw [Except.error.inj (congrArg Outcome.result (failed.symm.trans failed'))]

/-! ## Runs for some steps -/

theorem runFor_of_finish (h : m.pointer = .finish) (k : Nat) : runFor k m = ⟨.ok (), m, []⟩ := by
  cases k with
  | zero => rfl
  | succ k => rw [runFor_succ, bind_apply, get_apply, Outcome.andThen_ok, if_pos h]; rfl

theorem runFor_succ_of_ne (h : m.pointer ≠ .finish) (k : Nat) :
    runFor (k + 1) m = (step m).andThen fun _ => runFor k := by
  rw [runFor_succ, bind_apply, get_apply, Outcome.andThen_ok, if_neg h]
  rfl

theorem runFor_succ_of_ok {a : Option Item} (h : (step m).result = .ok a) (k : Nat) :
    (runFor (k + 1) m).result = (runFor k (step m).machine).result ∧
      (runFor (k + 1) m).machine = (runFor k (step m).machine).machine := by
  rw [runFor_succ_of_ne (pointer_ne_finish_of_step h)]
  rcases hm : step m with ⟨r, n, es⟩
  rw [hm] at h
  obtain rfl : r = .ok a := h
  exact ⟨rfl, rfl⟩

/-- A run can be made in two parts. -/
theorem runFor_add (a b : Nat) (m : Machine) : runFor (a + b) m = (runFor a m).andThen fun _ => runFor b := by
  induction a generalizing m with
  | zero => simp [runFor_zero]
  | succ a ih =>
    by_cases hfinish : m.pointer = .finish
    · rw [runFor_of_finish hfinish, runFor_of_finish hfinish, Outcome.andThen_ok, runFor_of_finish hfinish]
      rfl
    · rw [Nat.add_right_comm, runFor_succ_of_ne hfinish, runFor_succ_of_ne hfinish]
      rcases step m with ⟨r, n, es⟩
      cases r with
      | error fault => rfl
      | ok a =>
        rw [Outcome.andThen_ok, Outcome.andThen_ok, ih]
        rcases runFor _ n with ⟨r', n', es'⟩
        cases r' <;> simp

/-- A run that has come to its end is not changed by further steps. -/
theorem runFor_add_of_ended {a : Nat}
    (ended : ∀ u, (runFor a m).result = .ok u → (runFor a m).machine.pointer = .finish) (k : Nat) :
    runFor (a + k) m = runFor a m := by
  rw [runFor_add]
  rcases hrun : runFor a m with ⟨r, n, es⟩
  rw [hrun] at ended
  cases r with
  | error fault => rfl
  | ok u =>
    rw [Outcome.andThen_ok, runFor_of_finish (ended u rfl), List.append_nil]

/-- The steps at the beginning of a run can be made one by one. -/
theorem runFor_of_repeats {steps : List (Option Item)} (run : Repeats step m steps n) (k : Nat) :
    (runFor (steps.length + k) m).result = (runFor k n).result ∧
      (runFor (steps.length + k) m).machine = (runFor k n).machine := by
  induction run with
  | none m => simp
  | once result rest ih =>
    rw [List.length_cons, Nat.add_right_comm]
    obtain ⟨hresult, hmachine⟩ := runFor_succ_of_ok result (k := _)
    exact ⟨hresult.trans ih.1, hmachine.trans ih.2⟩

/-- A run is made of steps, and at a fault it has stopped at the step that failed. -/
theorem repeats_of_runFor (regular : m.Regular) (k : Nat) :
    ∃ steps, Repeats step m steps (runFor k m).machine ∧
      ∀ fault, (runFor k m).result = .error fault → Ended (runFor k m).machine (.error fault) := by
  induction k generalizing m with
  | zero => exact ⟨[], .none m, fun fault h => by cases h⟩
  | succ k ih =>
    by_cases hfinish : m.pointer = .finish
    · rw [runFor_of_finish hfinish]
      exact ⟨[], .none m, fun fault h => by cases h⟩
    · cases hr : (step m).result with
      | ok a =>
        obtain ⟨hresult, hmachine⟩ := runFor_succ_of_ok hr k
        obtain ⟨steps, run, hstopped⟩ := ih regular.step
        rw [hresult, hmachine]
        exact ⟨a :: steps, .once hr run, hstopped⟩
      | error fault =>
        have hstep := step_of_error regular hr
        rw [runFor_succ_of_ne hfinish, hstep, Outcome.andThen_error]
        refine ⟨[], .none m, fun fault' h => ?_⟩
        obtain rfl := Except.error.inj h
        exact .failed hfinish hstep

/-! ## Runs without a limit -/

theorem runCapped_apply (cap : Int) (m : Machine) : runCapped cap m =
    ⟨(runFor cap.toNat m).result.map fun _ => (runFor cap.toNat m).machine.output, (runFor cap.toNat m).machine,
      (runFor cap.toNat m).events⟩ := by
  rw [runCapped, bind_apply]
  rcases runFor cap.toNat m with ⟨r, n, es⟩
  cases r with
  | ok u => simp [map_apply, Except.map]
  | error fault => rfl

/-- A run without a limit is one that was long enough to end. -/
theorem runWithin?_eq_some_iff {allowance : Nat} {o : Outcome (List Cell)} : m.runWithin? allowance = some o ↔
    o = runCapped allowance m ∧ ∀ output, o.result = .ok output → o.machine.pointer = .finish := by
  unfold runWithin?
  dsimp only
  cases hr : (runCapped allowance m).result with
  | error fault =>
    constructor
    · intro h
      obtain rfl := Option.some.inj h
      exact ⟨rfl, fun output hok => by rw [hr] at hok; cases hok⟩
    · rintro ⟨rfl, -⟩
      rfl
  | ok output =>
    by_cases hfinish : (runCapped allowance m).machine.pointer = .finish
    · simp only [if_pos hfinish, Option.some.injEq]
      constructor
      · rintro rfl
        exact ⟨rfl, fun _ _ => hfinish⟩
      · rintro ⟨rfl, -⟩
        rfl
    · simp only [if_neg hfinish, reduceCtorEq, false_iff]
      rintro ⟨rfl, hok⟩
      exact hfinish (hok _ hr)

/-- However many steps are allowed, as long as they suffice the run without a limit is the same. -/
theorem runWithin?_unique {a b : Nat} {o o' : Outcome (List Cell)} (h : m.runWithin? a = some o)
    (h' : m.runWithin? b = some o') : o = o' := by
  have longer : ∀ {a b : Nat} {o o' : Outcome (List Cell)}, a ≤ b → m.runWithin? a = some o →
      m.runWithin? b = some o' → o = o' := by
    intro a b o o' hab h h'
    obtain ⟨rfl, ended⟩ := runWithin?_eq_some_iff.mp h
    obtain ⟨rfl, -⟩ := runWithin?_eq_some_iff.mp h'
    obtain ⟨k, rfl⟩ := Nat.exists_eq_add_of_le hab
    simp only [runCapped_apply, Int.toNat_natCast] at ended ⊢
    rw [runFor_add_of_ended (fun u hu => ended _ (by rw [hu]; rfl))]
  rcases Nat.le_total a b with hab | hba
  · exact longer hab h h'
  · exact (longer hba h' h).symm

/-- A run that was allowed some more steps than it made. -/
theorem runEnds_of_repeats {steps : List (Option Item)} (run : Repeats step m steps n) (ended : Ended n r) :
    m.RunEnds r n := by
  obtain ⟨hresult, hmachine⟩ := runFor_of_repeats run 1
  have hlast : (runFor 1 n).machine = n ∧ (runFor 1 n).result.map (fun _ => n.output) = r := by
    cases ended with
    | finish finish =>
      rw [runFor_of_finish finish]
      exact ⟨rfl, rfl⟩
    | failed inside failed =>
      rw [runFor_succ_of_ne inside, failed]
      exact ⟨rfl, rfl⟩
  have hcapped : (runCapped (steps.length + 1 : Nat) m).result = r ∧
      (runCapped (steps.length + 1 : Nat) m).machine = n := by
    rw [runCapped_apply, Int.toNat_natCast, hresult, hmachine, hlast.1]
    exact ⟨hlast.2, rfl⟩
  refine ⟨_, _, runWithin?_eq_some_iff.mpr ⟨rfl, fun output hok => ?_⟩, hcapped⟩
  rw [hcapped.1] at hok
  rw [hcapped.2]
  subst hok
  cases ended with
  | finish finish => exact finish

/-- A run without a limit makes its steps and ends. -/
theorem runEnds_iff (regular : m.Regular) : m.RunEnds r n ↔ (∃ steps, Repeats step m steps n) ∧ Ended n r := by
  constructor
  · rintro ⟨allowance, o, ho, rfl, rfl⟩
    obtain ⟨rfl, hfinish⟩ := runWithin?_eq_some_iff.mp ho
    obtain ⟨steps, run, hstopped⟩ := repeats_of_runFor regular allowance
    rw [runCapped_apply, Int.toNat_natCast] at hfinish ⊢
    refine ⟨⟨steps, run⟩, ?_⟩
    cases hr : (runFor allowance m).result with
    | ok u =>
      rw [hr] at hfinish
      exact .finish (hfinish _ rfl)
    | error fault => exact hstopped fault hr
  · rintro ⟨⟨steps, run⟩, ended⟩
    exact runEnds_of_repeats run ended

/-- A run without a limit ends in one way only. -/
theorem RunEnds.unique {r' : Except Fault (List Cell)} {n' : Machine} (h : m.RunEnds r n) (h' : m.RunEnds r' n') :
    r = r' ∧ n = n' := by
  obtain ⟨a, o, ho, rfl, rfl⟩ := h
  obtain ⟨b, o', ho', rfl, rfl⟩ := h'
  obtain rfl := runWithin?_unique ho ho'
  exact ⟨rfl, rfl⟩

end Rewind.Machine
