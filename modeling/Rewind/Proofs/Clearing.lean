import Rewind.Proofs.Strokes

/-!
# What clears the tape

Only a new beginning clears the tape, whether it is asked for or called for by an instruction that is executed or
undone.

- The events of an attempt tell each change of the tape (`Machine.told_lasting`, `Attempt.told`);
- `Attempt.calls` are the calls that an attempt makes, each on the machine that it finds. `Attempt.restarts` are the
  machines among them that are put back to their beginning;
- `Attempt.cleared` says that the tapes which an attempt clears are those of these machines, and
  `Session.perform_cleared` says the same of a request.
-/

namespace Rewind

open Rewind.Action

/-! ## The events tell each change -/

/-- The events tell every change of the tape. -/
theorem Machine.told_lasting (t : Tape) : Lasting fun es m => t.after? (Event.changes es) = some m.tape where
  stroke {es new m n} stroke hm := by
    rw [Event.changes_append]
    cases stroke with
    | @tape change u _ made => exact Tape.after?_concat_eq_some_iff.mpr ⟨m.tape, hm, made⟩
    | load program =>
      rw [Event.changes_loadEvents, List.append_nil]
      exact hm
    | restart => exact Tape.after?_concat_eq_some_iff.mpr ⟨m.tape, hm, rfl⟩
    | point | emitted | input | overwritten =>
      rw [Event.changes_nil, List.append_nil]
      exact hm
  executed item hm := by
    rw [Event.changes_append]
    exact (congrArg (Tape.after? · t) (List.append_nil _)).trans hm
  consumed _ hm := hm
  undid item hm := by
    rw [Event.changes_append]
    exact (congrArg (Tape.after? · t) (List.append_nil _)).trans hm

theorem Attempt.told (a : Attempt) : a.on.tape.after? (Event.changes a.events) = some a.after.tape := by
  have lasting := Machine.told_lasting a.on.tape
  have init : a.on.tape.after? (Event.changes []) = some a.on.tape := rfl
  exact Attempt.keeps lasting.step lasting.undo (fun call _ => lasting.keeps (ByStrokes.hereditary.perform call)) init

/-- What follows without telling of the tape adds no change. -/
theorem Event.changes_andThen {α β : Type} {o : Outcome α} {f : α → Action β}
    (quiet : ∀ a m, changes (f a m).events = []) : changes (o.andThen f).events = changes o.events := by
  rcases o with ⟨r, n, es⟩
  cases r with
  | error fault => rfl
  | ok a => rw [Outcome.andThen_ok, changes_append, quiet, List.append_nil]

/-! ## The calls that an attempt makes -/

/-- Calls made one after the other; one that fails is the last. -/
def Call.attempts : List Call → Machine → List Attempt
  | [], _ => []
  | call :: calls, m =>
    ⟨.call call, m⟩ ::
      match (call.perform m).result with
      | .ok _ => attempts calls (call.perform m).machine
      | .error _ => []

namespace Item

/-- The calls that execute an item; a command makes none. -/
def forwardCalls : Item → List Call
  | command _ => []
  | custom _ forward _ => forward

/-- The calls that undo an item; a command makes none. -/
def inverseCalls : Item → List Call
  | command _ => []
  | custom _ _ inverse => inverse

end Item

namespace Attempt

/-- The calls that an attempt makes. -/
def calls : Attempt → List Attempt
  | ⟨.call call, m⟩ => [⟨.call call, m⟩]
  | ⟨.step, m⟩ =>
    match m.current? with
    | some item => Call.attempts item.forwardCalls m
    | none => []
  | ⟨.undo, m⟩ =>
    match m.history with
    | item :: rest => Call.attempts item.inverseCalls { m with history := rest }
    | [] => []

/-- The machine that an attempt for a new beginning puts back. -/
def restarted? : Attempt → Option Machine
  | ⟨.call .reset, m⟩ => some m
  | _ => none

/-- The machines that are put back to their beginning in an attempt. -/
def restarts (a : Attempt) : List Machine := a.calls.filterMap restarted?

end Attempt

/-- The machines that are put back to their beginning by a request. -/
def Request.restarts (allowance : Nat) (m : Machine) (request : Request) : List Machine :=
  (request.attempts allowance m).flatMap Attempt.restarts

theorem Call.exists_of_mem_attempts {calls : List Call} {m : Machine} {a : Attempt} (h : a ∈ attempts calls m) :
    ∃ call n, a = ⟨.call call, n⟩ := by
  induction calls generalizing m with
  | nil => cases h
  | cons call calls ih =>
    rcases List.mem_cons.mp h with rfl | h
    · exact ⟨call, m, rfl⟩
    · split at h
      · exact ih h
      · cases h

/-- Calls are attempted one after the other. -/
theorem Call.tries_performAll (calls : List Call) (m : Machine) :
    m.Tries (attempts calls m) (performAll calls m).events (performAll calls m).machine := by
  induction calls generalizing m with
  | nil => exact .none m
  | cons call calls ih =>
    have hfirst : m.Tries [⟨.call call, m⟩] _ _ := Machine.tries_one ⟨.call call, m⟩
    rw [Attempt.events_call, Attempt.after_call] at hfirst
    rw [performAll_cons, bind_apply, attempts]
    rcases hm : call.perform m with ⟨r, n, es⟩
    rw [hm] at hfirst
    cases r with
    | error fault => exact hfirst
    | ok answer => exact hfirst.append (ih n)

/-! ## The tapes that are cleared -/

/-- If each attempt clears the tapes of some machines, attempts in a row clear the tapes of all of these. -/
theorem Machine.Tries.cleared {m n : Machine} {as : List Attempt} {es : List Event}
    {restarts : Attempt → List Machine} (tries : m.Tries as es n)
    (each : ∀ a ∈ as, a.on.tape.cleared (Event.changes a.events) = (restarts a).map Machine.tape) :
    m.tape.cleared (Event.changes es) = (as.flatMap restarts).map Machine.tape := by
  induction tries with
  | none => rfl
  | @next m n as es deed _ ih =>
    have hfirst := each ⟨deed, m⟩ List.mem_cons_self
    have hrest := ih fun a ha => each a (List.mem_cons_of_mem _ ha)
    rw [Event.changes_append, Tape.cleared_append (Attempt.told ⟨deed, m⟩), hfirst, hrest, List.flatMap_cons,
      List.map_append]

theorem Call.cleared (call : Call) (m : Machine) :
    m.tape.cleared (Event.changes (call.perform m).events) =
      (Attempt.restarted? ⟨.call call, m⟩).toList.map Machine.tape := by
  by_cases h : call = .reset
  · subst h
    rfl
  · rw [Tape.cleared_of_not_mem (not_clear h m)]
    cases call with
    | reset => exact absurd rfl h
    | _ => rfl

theorem Call.cleared_performAll (calls : List Call) (m : Machine) :
    m.tape.cleared (Event.changes (performAll calls m).events) =
      ((attempts calls m).filterMap Attempt.restarted?).map Machine.tape := by
  rw [List.filterMap_eq_flatMap_toList]
  refine (tries_performAll calls m).cleared fun a ha => ?_
  obtain ⟨call, n, rfl⟩ := exists_of_mem_attempts ha
  have hcall := Call.cleared call n
  rwa [← Attempt.events_call] at hcall

namespace Item

/-- A command that is executed clears nothing, and what a custom instruction clears its calls clear. -/
theorem cleared_forward (item : Item) (m : Machine) :
    m.tape.cleared (Event.changes (item.forward m).events) =
      ((Call.attempts item.forwardCalls m).filterMap Attempt.restarted?).map Machine.tape := by
  cases item with
  | command c => exact Tape.cleared_of_not_mem (TellsTapeOnly.composable.forward c m).not_clear
  | custom symbol forward inverse => exact Call.cleared_performAll forward m

/-- It is the same when they are undone. -/
theorem cleared_inverse (item : Item) (m : Machine) :
    m.tape.cleared (Event.changes (item.inverse m).events) =
      ((Call.attempts item.inverseCalls m).filterMap Attempt.restarted?).map Machine.tape := by
  cases item with
  | command c => exact Tape.cleared_of_not_mem (TellsTapeOnly.composable.inverse c m).not_clear
  | custom symbol forward inverse => exact Call.cleared_performAll inverse m

end Item

/-- The tapes that an attempt clears are those of the machines that it puts back. -/
theorem Attempt.cleared (a : Attempt) :
    a.on.tape.cleared (Event.changes a.events) = a.restarts.map Machine.tape := by
  obtain ⟨deed, m⟩ := a
  cases deed with
  | step =>
    rw [events_step, restarts, calls]
    cases hcurrent : m.current? with
    | none =>
      have hsilent : (Machine.advance m).events = [] := by rw [Machine.advance_apply, TellsTapeOnly.movedTo_silent]
      rw [Machine.step_of_current?_eq_none hcurrent, Event.changes_andThen fun _ _ => rfl, hsilent]
      rfl
    | some item =>
      rw [Machine.step_of_current?_eq_some hcurrent, Event.changes_andThen fun _ _ => rfl]
      exact item.cleared_forward m
  | undo =>
    rw [events_undo, restarts, calls]
    cases hhistory : m.history with
    | nil =>
      rw [Machine.undo_of_history_eq_nil hhistory]
      rfl
    | cons item rest =>
      rw [Machine.undo_of_history_eq_cons hhistory, Event.changes_andThen fun _ _ => rfl]
      exact item.cleared_inverse { m with history := rest }
  | call call =>
    rw [events_call, Call.cleared call m, restarts, calls, List.filterMap_cons, List.filterMap_nil]
    cases restarted? ⟨.call call, m⟩ <;> rfl

/-- The tapes that a request clears are those of the machines that it puts back. -/
theorem Session.perform_cleared {s : Session} {allowance : Nat} {request : Request} {response : Response}
    (performed : s.perform allowance request = some response) :
    s.machine.tape.cleared (Event.changes response.events) =
      (request.restarts allowance s.machine).map Machine.tape :=
  (perform_tries performed).cleared fun a _ => a.cleared

end Rewind
