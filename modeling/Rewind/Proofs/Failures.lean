import Rewind.Proofs.Atomicity
import Rewind.Proofs.Checking
import Rewind.Proofs.Replay
import Rewind.Report

/-!
# Failures of parsed programs

In a balanced program every bracket has its partner, so a step fails only for the reasons of `Machine.Blocked`
(`Machine.step_raises_iff`), and an undo only when there is nothing to undo (`Machine.undo_raises_iff`).
`Session.Course.failures` says so of everything that a session on a parsed program comes to.
-/

namespace Rewind

open Rewind.Action

/-- The work stopped at a fault of this kind. -/
def Outcome.Raises {α : Type} (o : Outcome α) (kind : Kind) : Prop :=
  ∃ fault, o.result = .error fault ∧ fault.report.kind = kind

/-- The work came to its end. -/
def Outcome.Succeeds {α : Type} (o : Outcome α) : Prop := ∃ a, o.result = .ok a

theorem Outcome.succeeds_iff {α : Type} {o : Outcome α} : o.Succeeds ↔ ∀ kind, ¬o.Raises kind := by
  constructor
  · rintro ⟨a, ha⟩ kind ⟨fault, hfault, -⟩
    cases ha.symm.trans hfault
  · intro h
    cases hr : o.result with
    | ok a => exact ⟨a, hr⟩
    | error fault => exact absurd ⟨fault, hr, rfl⟩ (h fault.report.kind)

namespace Machine

variable {m : Machine} {kind : Kind}

/-- Why the machine cannot step, with the kind of failure that tells of it. -/
inductive Blocked (m : Machine) : Kind → Prop
  | exhausted (finish : m.pointer = .finish) : Blocked m .exhausted
  | tapeUnderflow (current : m.current? = some (.command .moveLeft)) (first : m.tape.cursor = 0) :
    Blocked m .tapeUnderflow
  | inputNeeded (current : m.current? = some (.command .accept)) (dry : m.input = []) : Blocked m .inputNeeded

/-- In a balanced program no bracket that the machine has to jump from is without partner. -/
theorem Hindered.blocked {fault : Fault} (hindered : m.Hindered fault) (balanced : Balanced Item.bracket? m.program) :
    m.Blocked fault.report.kind := by
  have partner : ∀ {i : Nat} {c : Command} {b : Bracket}, m.pointer = .on i → m.current? = some (.command c) →
      c.bracket? = some b → ∃ j, Faces m.program b i j := by
    intro i c b on current hc
    have hbracket := bracket?_of_current? on current hc
    obtain ⟨j, hj⟩ := exists_partner_of_balanced balanced hbracket
    exact ⟨j, (matchingBracket_eq_ok_iff hbracket).mp hj⟩
  cases hindered with
  | ended finish => exact .exhausted finish
  | firstCell current first => exact .tapeUnderflow current first
  | dry current empty => exact .inputNeeded current empty
  | unclosed on current _ single =>
    obtain ⟨j, partners⟩ := partner (b := .opening) on current rfl
    exact absurd partners (single j)
  | unopened on current _ single =>
    obtain ⟨j, partners⟩ := partner (b := .closing) on current rfl
    exact absurd partners (single j)

theorem Blocked.hindered (blocked : m.Blocked kind) : ∃ fault, m.Hindered fault ∧ fault.report.kind = kind := by
  cases blocked with
  | exhausted finish => exact ⟨_, .ended finish, rfl⟩
  | tapeUnderflow current first => exact ⟨_, .firstCell current first, rfl⟩
  | inputNeeded current dry => exact ⟨_, .dry current dry, rfl⟩

/-- A step on a balanced program fails exactly when the machine is blocked, and says why. -/
theorem step_raises_iff (regular : m.Regular) (balanced : Balanced Item.bracket? m.program) :
    (step m).Raises kind ↔ m.Blocked kind := by
  constructor
  · rintro ⟨fault, hfault, rfl⟩
    have hindered := (step_eq_error_iff regular.wellFormed regular.atCommand).mp hfault
    exact hindered.blocked balanced
  · intro blocked
    obtain ⟨fault, hindered, rfl⟩ := blocked.hindered
    exact ⟨fault, (step_eq_error_iff regular.wellFormed regular.atCommand).mpr hindered, rfl⟩

/-- A run fails only inside the program, where a step does. -/
theorem run_raises (regular : m.Regular) (balanced : Balanced Item.bracket? m.program) {cap : Int}
    (h : (runCapped cap m).Raises kind) : kind = .tapeUnderflow ∨ kind = .inputNeeded := by
  obtain ⟨fault, hfault, rfl⟩ := h
  obtain ⟨steps, run, hstopped⟩ := repeats_of_runFor regular cap.toNat
  rw [runCapped_apply] at hfault
  have hrun : (runFor cap.toNat m).result = .error fault := by
    cases hr : (runFor cap.toNat m).result with
    | ok u => rw [hr] at hfault; cases hfault
    | error fault' =>
      rw [hr] at hfault
      rw [Except.error.inj hfault]
  cases hstopped fault hrun with
  | failed inside failed =>
    have hraises : (step (runFor cap.toNat m).machine).Raises fault.report.kind := ⟨fault, by rw [failed], rfl⟩
    have hbalanced : Balanced Item.bracket? (runFor cap.toNat m).machine.program := by
      rw [repeats_program regular run]
      exact balanced
    generalize fault.report.kind = kind at hraises ⊢
    cases (step_raises_iff (regular.repeats run) hbalanced).mp hraises with
    | exhausted finish => exact absurd finish inside
    | tapeUnderflow => exact Or.inl rfl
    | inputNeeded => exact Or.inr rfl

/-- On a straight run an undo fails exactly when there is nothing to undo. -/
theorem undo_raises_iff {commands : List Command} {staged taken : List Cell}
    (straight : Straight (commands.map .command) staged taken m) :
    (undo m).Raises kind ↔ kind = .noHistory ∧ m.history = [] := by
  constructor
  · rintro ⟨fault, hfault, rfl⟩
    by_cases hh : m.history = []
    · rw [undo_of_history_eq_nil hh] at hfault
      obtain rfl := Except.error.inj hfault
      exact ⟨rfl, hh⟩
    · obtain ⟨steps, f, k, run, rfl⟩ := straight
      obtain ⟨earlier, g, item, j, es, -, -, -, -, hundo⟩ :=
        undo_of_repeats (regular_primed commands staged _) rfl run hh k
      rw [hundo] at hfault
      cases hfault
  · rintro ⟨rfl, hh⟩
    rw [undo_of_history_eq_nil hh]
    exact ⟨_, rfl, rfl⟩

end Machine

/--
Whatever a session on a parsed program has come to, a step fails exactly when the machine is blocked and an undo
exactly when there is no history; otherwise they succeed. A run fails only where the cursor should leave the tape or
input is missing.
-/
theorem Session.Course.failures {source : String} {commands : List Command} (parsed : parse source = .ok commands)
    {input : List Cell} {exchanges : List Exchange} {s : Session}
    (course : Course ⟨.start (commands.map .command) input, []⟩ exchanges s)
    (drives : ∀ x ∈ exchanges, x.request.Drives) :
    (∀ kind, (Machine.step s.machine).Raises kind ↔ s.machine.Blocked kind) ∧
      ((Machine.step s.machine).Succeeds ↔ ∀ kind, ¬s.machine.Blocked kind) ∧
      (∀ kind, (Machine.undo s.machine).Raises kind ↔ kind = .noHistory ∧ s.machine.history = []) ∧
      ((Machine.undo s.machine).Succeeds ↔ s.machine.history ≠ []) ∧
      ∀ cap kind, (Machine.runCapped cap s.machine).Raises kind → kind = .tapeUnderflow ∨ kind = .inputNeeded := by
  have straight := course.straight drives
  obtain ⟨regular, hprogram⟩ := straight.regular
  have balanced : Balanced Item.bracket? s.machine.program := by
    rw [hprogram]
    exact balanced_commands (balanced_of_parse parsed)
  have hstep : ∀ kind, (Machine.step s.machine).Raises kind ↔ s.machine.Blocked kind := by
    intro kind
    exact Machine.step_raises_iff regular balanced
  have hundo : ∀ kind, (Machine.undo s.machine).Raises kind ↔ kind = .noHistory ∧ s.machine.history = [] := by
    intro kind
    exact Machine.undo_raises_iff straight
  refine ⟨hstep, ?_, hundo, ?_, fun cap kind => Machine.run_raises regular balanced⟩
  · rw [Outcome.succeeds_iff]
    exact forall_congr' fun kind => not_congr (hstep kind)
  · rw [Outcome.succeeds_iff]
    constructor
    · intro h hh
      exact h .noHistory ((hundo _).mpr ⟨rfl, hh⟩)
    · intro hh kind hraises
      exact hh ((hundo kind).mp hraises).2

/-- A session that fails to move left of the first cell, after it has waited for input. -/
theorem Session.Course.failures_first_cell :
    ∃ exchanges s, Course ⟨.start ([.accept, .openLoop, .moveLeft, .closeLoop].map .command) [], []⟩ exchanges s ∧
      (Machine.step s.machine).Raises .tapeUnderflow ∧ (Machine.undo s.machine).Succeeds := by
  have parsed : parse ",[<]" = .ok [.accept, .openLoop, .moveLeft, .closeLoop] := rfl
  have waiting : Course ⟨.start ([.accept, .openLoop, .moveLeft, .closeLoop].map .command) [], []⟩ _ _ :=
    .next .begin (rfl : perform 3 _ (.run none) = some _)
  have course := ((waiting.next (rfl : perform 0 _ (.call (.supplyInput [1])) = some _)).next
    (rfl : perform 0 _ .step = some _)).next (rfl : perform 0 _ .step = some _)
  obtain ⟨hstep, -, -, hundo, -⟩ := failures parsed course (by simp [Request.Drives])
  exact ⟨_, _, course, (hstep _).mpr (.tapeUnderflow rfl rfl), hundo.mpr (List.cons_ne_nil _ _)⟩

end Rewind
