import Rewind.Proofs.Endings
import Rewind.Session

/-!
# What requests attempt

Every request comes down to steps, undos and calls. An `Attempt` is one of these deeds on the machine that it is
attempted on, whether it succeeds or not.

- `Request.attempts` lists the attempts of a request: a run goes on attempting steps until one fails, the pointer is
  past the end or the limit is reached;
- `Machine.Tries` is a row of attempts, each of which begins where the one before has ended. What every one of them keeps
  the row keeps (`Machine.Tries.keeps`);
- `Session.perform_tries` says that a request does and tells what its attempts do and tell, and nothing else. The loops
  of runs and traces are opened here and nowhere else.
-/

namespace Rewind

open Rewind.Action

/-- What a machine is made to do. -/
inductive Deed
  | step
  | undo
  | call (call : Call)

/-- A deed and the machine that it is attempted on. -/
structure Attempt where
  deed : Deed
  on : Machine

/-- The action of a deed, with the instruction that it executes or undoes. -/
def Deed.act : Deed → Action (Option Item)
  | step => Machine.step
  | undo => some <$> Machine.undo
  | call c => (fun _ => none) <$> c.perform

namespace Attempt

/-- What an attempt comes to. -/
def outcome (a : Attempt) : Outcome (Option Item) := a.deed.act a.on

/-- The machine that an attempt leaves behind. -/
def after (a : Attempt) : Machine := a.outcome.machine

/-- What happens in an attempt. -/
def events (a : Attempt) : List Event := a.outcome.events

variable (m : Machine) (call : Call)

@[simp] theorem after_step : after ⟨.step, m⟩ = (Machine.step m).machine := rfl

@[simp] theorem events_step : events ⟨.step, m⟩ = (Machine.step m).events := rfl

@[simp] theorem after_undo : after ⟨.undo, m⟩ = (Machine.undo m).machine := by
  simp [after, outcome, Deed.act, map_apply]

@[simp] theorem after_call : after ⟨.call call, m⟩ = (call.perform m).machine := by
  simp [after, outcome, Deed.act, map_apply]

@[simp] theorem events_undo : events ⟨.undo, m⟩ = (Machine.undo m).events := by
  simp [events, outcome, Deed.act, map_apply]

@[simp] theorem events_call : events ⟨.call call, m⟩ = (call.perform m).events := by
  simp [events, outcome, Deed.act, map_apply]

end Attempt

/-- The attempts at a deed that is done again and again, at most `n` times, until it fails or all is over. -/
def Deed.attempts (deed : Deed) (finished : Machine → Bool) : Nat → Machine → List Attempt
  | 0, _ => []
  | n + 1, m =>
    if finished m then []
    else
      ⟨deed, m⟩ ::
        match (deed.act m).result with
        | .ok _ => attempts deed finished n (deed.act m).machine
        | .error _ => []

/-- The attempts of a run for at most `n` steps. -/
def Machine.runAttempts (n : Nat) (m : Machine) : List Attempt :=
  Deed.step.attempts (fun m => m.pointer = .finish) n m

/-- The attempts that a request makes on a machine, one after the other. -/
def Request.attempts (allowance : Nat) (m : Machine) : Request → List Attempt
  | .call c => [⟨.call c, m⟩]
  | .step => [⟨.step, m⟩]
  | .undo => [⟨.undo, m⟩]
  | .run (some cap) => m.runAttempts cap.toNat
  | .run none => m.runAttempts allowance
  | .save _ | .same _ | .recall _ => []
  | .steps count => Deed.step.attempts (fun _ => false) count.toNat m
  | .undos count => Deed.undo.attempts (fun _ => false) count.toNat m

theorem Deed.deed_eq_of_mem {deed : Deed} {finished : Machine → Bool} {n : Nat} {m : Machine} {a : Attempt}
    (h : a ∈ deed.attempts finished n m) : a.deed = deed := by
  induction n generalizing m with
  | zero => cases h
  | succ n ih =>
    unfold attempts at h
    split at h
    · cases h
    · rcases List.mem_cons.mp h with rfl | h
      · rfl
      · split at h
        · exact ih h
        · cases h

/-- Only the request for a call attempts it. -/
theorem Request.eq_call_of_mem {allowance : Nat} {m : Machine} {request : Request} {a : Attempt} {call : Call}
    (h : a ∈ request.attempts allowance m) (hcall : a.deed = .call call) : request = .call call := by
  cases request with
  | call c =>
    obtain rfl := List.mem_singleton.mp h
    rw [Deed.call.inj hcall]
  | step | undo =>
    obtain rfl := List.mem_singleton.mp h
    cases hcall
  | run cap =>
    cases cap <;> rw [Deed.deed_eq_of_mem h] at hcall <;> cases hcall
  | steps count | undos count =>
    rw [Deed.deed_eq_of_mem h] at hcall
    cases hcall
  | _ => cases h

/-- A trace that has come to a fault goes no further. -/
theorem Trace.follow_of_fault {act : Action (Option Item)} {t : Trace} {fault : Fault} (h : t.fault = some fault)
    (n : Nat) : follow act n t = t := by
  cases n <;> simp [follow, h]

namespace Machine

/-! ## Attempts in a row -/

/-- The attempts follow each other from one machine to the other, and this is what happens. -/
inductive Tries : Machine → List Attempt → List Event → Machine → Prop
  | none (m : Machine) : Tries m [] [] m
  | next {m n : Machine} {as : List Attempt} {es : List Event} (deed : Deed)
    (rest : Tries (Attempt.after ⟨deed, m⟩) as es n) :
    Tries m (⟨deed, m⟩ :: as) (Attempt.events ⟨deed, m⟩ ++ es) n

variable {m n k : Machine} {as bs : List Attempt} {es fs : List Event}

theorem tries_one (a : Attempt) : a.on.Tries [a] a.events a.after := by
  rw [← List.append_nil a.events]
  exact .next a.deed (.none _)

theorem Tries.append (h : m.Tries as es n) (h' : n.Tries bs fs k) : m.Tries (as ++ bs) (es ++ fs) k := by
  induction h with
  | none => exact h'
  | next deed _ ih =>
    rw [List.append_assoc]
    exact .next deed (ih h')

/-- Attempts can be split where one begins. -/
theorem tries_append_iff :
    m.Tries (as ++ bs) es n ↔ ∃ past rest k, es = past ++ rest ∧ m.Tries as past k ∧ k.Tries bs rest n := by
  constructor
  · intro h
    induction as generalizing m es with
    | nil => exact ⟨[], es, m, rfl, .none m, h⟩
    | cons a as ih =>
      cases h with
      | next deed tail =>
        obtain ⟨past, rest, k, rfl, hpast, hrest⟩ := ih tail
        exact ⟨_, rest, k, (List.append_assoc ..).symm, .next deed hpast, hrest⟩
  · rintro ⟨past, rest, k, rfl, hpast, hrest⟩
    exact hpast.append hrest

/-- What every attempt keeps, of the attempts and the events so far and the machine, all of them keep. -/
theorem Tries.keeps {P : List Attempt → List Event → Machine → Prop} (h : m.Tries as es n)
    (next : ∀ earlier past a, a ∈ as → P earlier past a.on → P (earlier ++ [a]) (past ++ a.events) a.after)
    (earlier : List Attempt) (past : List Event) (init : P earlier past m) : P (earlier ++ as) (past ++ es) n := by
  induction h generalizing earlier past with
  | none m => simpa using init
  | @next m n as es deed rest ih =>
    have hfirst := next earlier past ⟨deed, m⟩ List.mem_cons_self init
    have hrest := ih (fun earlier past a ha => next earlier past a (List.mem_cons_of_mem _ ha)) _ _ hfirst
    simpa using hrest

/-- A run makes its attempts. -/
theorem tries_runFor (l : Nat) (m : Machine) :
    m.Tries (m.runAttempts l) (runFor l m).events (runFor l m).machine := by
  induction l generalizing m with
  | zero => exact .none m
  | succ l ih =>
    unfold runAttempts at ih ⊢
    by_cases hfinish : m.pointer = .finish
    · rw [runFor_of_finish hfinish, Deed.attempts, if_pos (decide_eq_true hfinish)]
      exact .none m
    · rw [runFor_succ_of_ne hfinish, Deed.attempts, if_neg (by simpa using hfinish), Deed.act]
      have hfirst : m.Tries [⟨.step, m⟩] (step m).events (step m).machine := tries_one ⟨.step, m⟩
      rcases hm : step m with ⟨r, n, new⟩
      rw [hm] at hfirst
      cases r with
      | error fault => exact hfirst
      | ok a => exact hfirst.append (ih n)

theorem tries_runCapped (cap : Int) (m : Machine) :
    m.Tries (m.runAttempts cap.toNat) (runCapped cap m).events (runCapped cap m).machine := by
  rw [runCapped_apply]
  exact tries_runFor _ m

/-- A trace makes its attempts. -/
theorem tries_follow (deed : Deed) (l : Nat) {t : Trace} (going : t.fault = Option.none) :
    ∃ es, (Trace.follow deed.act l t).events.reverse = t.events.reverse ++ es ∧
      t.machine.Tries (deed.attempts (fun _ => false) l t.machine) es (Trace.follow deed.act l t).machine := by
  induction l generalizing t with
  | zero => exact ⟨[], by simp [Trace.follow], .none _⟩
  | succ l ih =>
    have hfirst : t.machine.Tries [⟨deed, t.machine⟩] (deed.act t.machine).events (deed.act t.machine).machine :=
      tries_one ⟨deed, t.machine⟩
    rw [Trace.follow, going, Deed.attempts, if_neg (by simp)]
    unfold Trace.extend
    rcases hm : deed.act t.machine with ⟨r, n, new⟩
    rw [hm] at hfirst
    cases r with
    | error fault =>
      rw [Trace.follow_of_fault (show _ = some fault from rfl)]
      exact ⟨new, by simp, hfirst⟩
    | ok a =>
      obtain ⟨es, hes, hrest⟩ := ih (t := ⟨Trace.visit a n :: t.visits, Option.none, n, new.reverse ++ t.events⟩) rfl
      refine ⟨new ++ es, ?_, hfirst.append hrest⟩
      rw [hes]
      simp

end Machine

/-! ## Sessions -/

/-- A request does what it attempts, and nothing else. -/
theorem Session.perform_tries {s : Session} {allowance : Nat} {request : Request} {response : Response}
    (performed : s.perform allowance request = some response) :
    s.machine.Tries (request.attempts allowance s.machine) response.events response.session.machine := by
  cases request with
  | call call =>
    obtain rfl := Option.some.inj performed
    have hcall := Machine.tries_one ⟨.call call, s.machine⟩
    rwa [Attempt.events_call, Attempt.after_call] at hcall
  | step =>
    obtain rfl := Option.some.inj performed
    exact Machine.tries_one ⟨.step, s.machine⟩
  | undo =>
    obtain rfl := Option.some.inj performed
    have hundo := Machine.tries_one ⟨.undo, s.machine⟩
    rwa [Attempt.events_undo, Attempt.after_undo] at hundo
  | run cap =>
    cases cap with
    | some cap =>
      obtain rfl := Option.some.inj performed
      exact Machine.tries_runCapped cap s.machine
    | none =>
      obtain ⟨o, ho, rfl⟩ := Option.map_eq_some_iff.mp performed
      obtain ⟨rfl, -⟩ := Machine.runWithin?_eq_some_iff.mp ho
      exact Machine.tries_runCapped allowance s.machine
  | steps count =>
    obtain rfl := Option.some.inj performed
    obtain ⟨es, hes, htries⟩ := Machine.tries_follow .step count.toNat (t := .begin s.machine) rfl
    rw [show (Trace.begin s.machine).events.reverse ++ es = es from rfl] at hes
    rwa [← hes] at htries
  | undos count =>
    obtain rfl := Option.some.inj performed
    obtain ⟨es, hes, htries⟩ := Machine.tries_follow .undo count.toNat (t := .begin s.machine) rfl
    rw [show (Trace.begin s.machine).events.reverse ++ es = es from rfl] at hes
    rwa [← hes] at htries
  | _ =>
    -- The requests about snapshots leave the machine alone.
    obtain rfl := Option.some.inj performed
    exact .none _

end Rewind
