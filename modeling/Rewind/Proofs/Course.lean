import Rewind.Proofs.Attempts

/-!
# Courses of sessions

`Session.Course` relates a session to what it has become after some requests, whatever their replies. `Session.Tried`
also collects all that was attempted meanwhile: every course goes by attempts (`Session.Course.exists_tried`), and
`Session.Tried.tries` says that this is one row of attempts, which tells everything that the session tells.

What steps, undos and the calls among the requests keep, of the events so far and the machine, every request keeps
(`Session.perform_keeps`) and hence the whole course (`Session.Course.keeps_of_calls`, `Session.Course.keeps`).
-/

namespace Rewind

open Rewind.Action

/-- A request that was made and the response to it. -/
structure Exchange where
  request : Request
  response : Response

/-- Everything that happened, oldest first. -/
def Exchange.events (exchanges : List Exchange) : List Event := exchanges.flatMap fun x => x.response.events

theorem Exchange.events_concat (exchanges : List Exchange) (x : Exchange) :
    events (exchanges ++ [x]) = events exchanges ++ x.response.events := by
  simp [events]

/-- The requests that execute and undo instructions, queue input and start over. -/
def Request.Drives : Request → Prop
  | .step | .undo | .run _ | .call (.supplyInput _) | .call .reset => True
  | _ => False

/-- The requests that were made of a session, with their responses, and what it has become. -/
inductive Session.Course (s : Session) : List Exchange → Session → Prop
  | begin : Course s [] s
  | next {exchanges : List Exchange} {t : Session} {allowance : Nat} {request : Request} {response : Response}
    (before : Course s exchanges t) (performed : t.perform allowance request = some response) :
    Course s (exchanges ++ [⟨request, response⟩]) response.session

/-- The action keeps a property of the events so far and the machine, whether it succeeds or not. -/
def Action.Keeps {α : Type} (P : List Event → Machine → Prop) (x : Action α) : Prop :=
  ∀ es m, P es m → P (es ++ (x m).events) (x m).machine

variable {P : List Event → Machine → Prop}

theorem Action.Keeps.pure {α : Type} (a : α) : Keeps P (Pure.pure a : Action α) := by
  intro es m h
  simpa using h

theorem Action.Keeps.bind {α β : Type} {x : Action α} {f : α → Action β} (hx : Keeps P x) (hf : ∀ a, Keeps P (f a)) :
    Keeps P (x >>= f) := by
  intro es m h
  have hfirst := hx es m h
  rw [bind_apply]
  rcases hxm : x m with ⟨r, n, es'⟩
  rw [hxm] at hfirst
  cases r with
  | error fault => exact hfirst
  | ok a =>
    rw [Outcome.andThen_ok, ← List.append_assoc]
    exact hf a _ _ hfirst

/-- An attempt keeps what steps, undos and the call that it may be keep. -/
theorem Attempt.keeps {a : Attempt} (step : Keeps P Machine.step) (undo : Keeps P Machine.undo)
    (calls : ∀ call, a.deed = .call call → Keeps P call.perform) {es : List Event} (h : P es a.on) :
    P (es ++ a.events) a.after := by
  obtain ⟨deed, m⟩ := a
  cases deed with
  | step => exact step es m h
  | undo =>
    rw [events_undo, after_undo]
    exact undo es m h
  | call call =>
    rw [events_call, after_call]
    exact calls call rfl es m h

/-- A request keeps what steps, undos and the call that it may be keep. -/
theorem Session.perform_keeps {s : Session} {allowance : Nat} {request : Request} {response : Response}
    (performed : s.perform allowance request = some response) (step : Keeps P Machine.step)
    (undo : Keeps P Machine.undo) (calls : ∀ call, request = .call call → Keeps P call.perform) (es : List Event)
    (h : P es s.machine) : P (es ++ response.events) response.session.machine :=
  (perform_tries performed).keeps (P := fun _ => P)
    (fun _ _ _ ha => Attempt.keeps step undo fun call hcall => calls call (Request.eq_call_of_mem ha hcall)) [] es h

/-! ## The attempts of a course -/

/-- A session and what it has become after some requests, whatever their replies, with all that was attempted. -/
inductive Session.Tried (s : Session) : List Exchange → List Attempt → Session → Prop
  | begin : Tried s [] [] s
  | next {exchanges : List Exchange} {attempts : List Attempt} {t : Session} {allowance : Nat} {request : Request}
    {response : Response} (before : Tried s exchanges attempts t)
    (performed : t.perform allowance request = some response) :
    Tried s (exchanges ++ [⟨request, response⟩]) (attempts ++ request.attempts allowance t.machine) response.session

namespace Session

variable {s t : Session} {exchanges : List Exchange} {attempts : List Attempt}

/-- A course goes by attempts. -/
theorem Course.exists_tried (course : Course s exchanges t) : ∃ attempts, Tried s exchanges attempts t := by
  induction course with
  | begin => exact ⟨[], .begin⟩
  | next _ performed ih =>
    obtain ⟨attempts, tried⟩ := ih
    exact ⟨_, tried.next performed⟩

/-- Whatever a session does and tells, it does in its attempts, each of which begins where the one before has ended. -/
theorem Tried.tries (tried : Tried s exchanges attempts t) :
    s.machine.Tries attempts (Exchange.events exchanges) t.machine := by
  induction tried with
  | begin => exact .none _
  | next _ performed ih =>
    rw [Exchange.events_concat]
    exact ih.append (perform_tries performed)

/-- The calls among the attempts are those that were asked for. -/
theorem Tried.exists_request (tried : Tried s exchanges attempts t) {a : Attempt} {call : Call} (ha : a ∈ attempts)
    (hcall : a.deed = .call call) : ∃ x ∈ exchanges, x.request = .call call := by
  induction tried with
  | begin => cases ha
  | @next _ _ _ _ request response _ _ ih =>
    rcases List.mem_append.mp ha with ha | ha
    · obtain ⟨x, hx, hrequest⟩ := ih ha
      exact ⟨x, List.mem_append_left _ hx, hrequest⟩
    · exact ⟨⟨request, response⟩, by simp, Request.eq_call_of_mem ha hcall⟩

end Session

/-! ## What courses keep -/

/-- A course keeps what steps, undos and the calls that were made keep. -/
theorem Session.Course.keeps_of_calls {s t : Session} {exchanges : List Exchange} (course : Course s exchanges t)
    (step : Keeps P Machine.step) (undo : Keeps P Machine.undo)
    (calls : ∀ x ∈ exchanges, ∀ call, x.request = .call call → Keeps P call.perform) (init : P [] s.machine) :
    P (Exchange.events exchanges) t.machine := by
  obtain ⟨attempts, tried⟩ := course.exists_tried
  refine tried.tries.keeps (P := fun _ => P) (fun _ _ a ha => Attempt.keeps step undo fun call hcall => ?_) [] [] init
  obtain ⟨x, hx, hrequest⟩ := tried.exists_request ha hcall
  exact calls x hx call hrequest

/-- A course of requests that drive the machine keeps what the actions behind them keep. -/
theorem Session.Course.keeps {s t : Session} {exchanges : List Exchange} (course : Course s exchanges t)
    (drives : ∀ x ∈ exchanges, x.request.Drives) (step : Keeps P Machine.step) (undo : Keeps P Machine.undo)
    (supply : ∀ data, Keeps P (Machine.supplyInput data)) (restart : Keeps P Machine.restart)
    (init : P [] s.machine) : P (Exchange.events exchanges) t.machine := by
  refine course.keeps_of_calls step undo (fun x hx call hcall => ?_) init
  have hdrives := drives x hx
  rw [hcall] at hdrives
  cases call with
  | supplyInput data => exact (supply data).bind fun _ => .pure _
  | reset => exact restart.bind fun _ => .pure _
  | _ => exact hdrives.elim

end Rewind
