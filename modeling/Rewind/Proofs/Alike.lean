import Mathlib.Data.List.Forall2
import Rewind.Proofs.Course
import Rewind.Proofs.Padding

/-!
# Sessions on tapes that are alike

Two machines are alike when their tapes differ at most in the number of trailing zero cells. The tapes then grow at
different moments, but nothing that a session answers tells them apart, the cells of a snapshot excepted.

- `Machine.Alike`, `Snapshot.Alike`, `Reply.Alike`, `Session.Alike` and `Exchange.Alike` say what it is to be alike;
- actions that ignore padding come to the same on machines that are alike (`Action.IgnoresPadding.alike`), hence so do
  runs (`Machine.runFor_ignoresPadding`) and traces (`Trace.Alike.follow`);
- `Session.Alike.perform` says so of one request, and `Session.Course.trailing_zeros_unseen` of any number of them.
-/

namespace Rewind

open Rewind.Action

/-! ## Machines -/

/-- The machines differ at most in the number of trailing zero cells of their tapes. -/
def Machine.Alike (m n : Machine) : Prop := ∃ t, n = { m with tape := t } ∧ m.tape.Alike t

/-- Machines that are alike are one machine with zero cells added. -/
theorem Machine.alike_iff {m n : Machine} : m.Alike n ↔ ∃ o j k, m = pad j o ∧ n = pad k o := by
  constructor
  · rintro ⟨t, rfl, u, j, k, hm, rfl⟩
    refine ⟨{ m with tape := u }, j, k, ?_, rfl⟩
    rw [pad, ← hm]
  · rintro ⟨o, j, k, rfl, rfl⟩
    exact ⟨o.tape.pad k, rfl, o.tape, j, k, rfl, rfl⟩

/-- What the work gives and tells is the same, and the machines that it leaves are alike. -/
structure Outcome.Alike {α : Type} (o p : Outcome α) : Prop where
  result : o.result = p.result
  events : o.events = p.events
  machine : o.machine.Alike p.machine

theorem Action.IgnoresPadding.alike {α : Type} {x : Action α} (h : IgnoresPadding x) {m n : Machine}
    (alike : m.Alike n) : (x m).Alike (x n) := by
  obtain ⟨o, j, k, rfl, rfl⟩ := Machine.alike_iff.mp alike
  obtain ⟨j', hj⟩ := h o j
  obtain ⟨k', hk⟩ := h o k
  rw [hj, hk]
  exact ⟨rfl, rfl, Machine.alike_iff.mpr ⟨_, j', k', rfl, rfl⟩⟩

namespace Machine

variable {m n : Machine}

theorem Alike.pointer_eq (alike : m.Alike n) : m.pointer = n.pointer := by
  obtain ⟨t, rfl, -⟩ := alike
  rfl

theorem runFor_ignoresPadding (k : Nat) : IgnoresPadding (runFor k) := by
  induction k with
  | zero => exact .pure ()
  | succ k ih =>
    rw [runFor_succ]
    refine .get_bind (fun _ _ => rfl) fun m => ?_
    split
    · exact .pure ()
    · exact IgnoresPadding.bind step_pad fun _ => ih

theorem runCapped_ignoresPadding (cap : Int) : IgnoresPadding (runCapped cap) :=
  (runFor_ignoresPadding _).bind fun _ => .get_bind (fun _ _ => rfl) fun _ => .pure _

/-- The run without a limit ends for both machines or for none. -/
theorem Alike.runWithin? (alike : m.Alike n) {allowance : Nat} {o : Outcome (List Cell)}
    (h : m.runWithin? allowance = some o) : ∃ p, n.runWithin? allowance = some p ∧ o.Alike p := by
  obtain ⟨rfl, ended⟩ := runWithin?_eq_some_iff.mp h
  have hrun := (runCapped_ignoresPadding allowance).alike alike
  refine ⟨_, runWithin?_eq_some_iff.mpr ⟨rfl, fun output hok => ?_⟩, hrun⟩
  rw [← hrun.machine.pointer_eq]
  exact ended output (hrun.result.trans hok)

end Machine

/-! ## Traces -/

/-- The traces show the same, and the machines that they have come to are alike. -/
structure Trace.Alike (t u : Trace) : Prop where
  visits : t.visits = u.visits
  fault : t.fault = u.fault
  events : t.events = u.events
  machine : t.machine.Alike u.machine

theorem Trace.visit_alike {m n : Machine} (alike : m.Alike n) (item : Option Item) : visit item m = visit item n := by
  obtain ⟨t, rfl, htape⟩ := alike
  simp only [visit, htape.cursor_eq, htape.here_eq]

theorem Trace.Alike.extend {t u : Trace} {act : Action (Option Item)} (h : IgnoresPadding act) (alike : t.Alike u) :
    (t.extend act).Alike (u.extend act) := by
  obtain ⟨hresult, hevents, hmachine⟩ := h.alike alike.machine
  simp only [Trace.extend, ← hresult, ← hevents, alike.visits, alike.events]
  cases (act t.machine).result with
  | ok item => exact ⟨congrArg (· :: u.visits) (visit_alike hmachine item), rfl, rfl, hmachine⟩
  | error fault => exact ⟨rfl, rfl, rfl, hmachine⟩

theorem Trace.Alike.follow {t u : Trace} {act : Action (Option Item)} (h : IgnoresPadding act) (k : Nat)
    (alike : t.Alike u) : (follow act k t).Alike (follow act k u) := by
  induction k generalizing t u with
  | zero => exact alike
  | succ k ih =>
    simp only [Trace.follow, ← alike.fault]
    cases t.fault with
    | none => exact ih (alike.extend h)
    | some fault => exact alike

/-! ## Sessions -/

/-- The snapshots differ at most in the number of trailing zero cells. -/
def Snapshot.Alike (a b : Snapshot) : Prop :=
  ∃ cells j k, a.cells = cells ++ List.replicate j 0 ∧ b = { a with cells := cells ++ List.replicate k 0 }

theorem Machine.Alike.snapshot {m n : Machine} (alike : m.Alike n) : m.snapshot.Alike n.snapshot := by
  obtain ⟨t, rfl, u, j, k, hm, rfl⟩ := alike
  refine ⟨u.cells, j, k, ?_, ?_⟩
  · simp [Machine.snapshot, hm]
  · simp [Machine.snapshot, Machine.output, hm]

/-- The replies are the same, or snapshots that are alike. -/
inductive Reply.Alike : Reply → Reply → Prop
  | same (r : Reply) : Alike r r
  | snapshot {a b : Snapshot} (alike : a.Alike b) :
    Alike (.answer (.ok (.snapshot (some a)))) (.answer (.ok (.snapshot (some b))))

/-- The machines of the sessions are alike, and so are the snapshots that were kept under each name. -/
structure Session.Alike (s t : Session) : Prop where
  machine : s.machine.Alike t.machine
  slots : List.Forall₂ (fun a b : String × Snapshot => a.1 = b.1 ∧ a.2.Alike b.2) s.slots t.slots

/-- The requests are the same, the responses tell the same, and the sessions after them are alike. -/
structure Exchange.Alike (x y : Exchange) : Prop where
  request : x.request = y.request
  /-- Only the comparison of a snapshot that was kept with a new one looks at the number of cells. -/
  reply : (∀ slot, x.request ≠ .same slot) → x.response.reply.Alike y.response.reply
  events : x.response.events = y.response.events
  session : x.response.session.Alike y.response.session

namespace Session

variable {s t s' t' : Session} {exchanges exchanges' : List Exchange}

theorem lookup_alike {xs ys : List (String × Snapshot)}
    (h : List.Forall₂ (fun a b : String × Snapshot => a.1 = b.1 ∧ a.2.Alike b.2) xs ys) (slot : String) :
    (xs.lookup slot = none ∧ ys.lookup slot = none) ∨
      ∃ a b, xs.lookup slot = some a ∧ ys.lookup slot = some b ∧ a.Alike b := by
  induction h with
  | nil => exact Or.inl ⟨rfl, rfl⟩
  | @cons x y xs ys hxy _ ih =>
    obtain ⟨name, a⟩ := x
    obtain ⟨name', b⟩ := y
    obtain ⟨rfl, hab⟩ := hxy
    simp only [List.lookup_cons]
    cases slot == name with
    | true => exact Or.inr ⟨a, b, rfl, rfl, hab⟩
    | false => exact ih

theorem Alike.respond {α : Type} (alike : s.Alike t) {o p : Outcome α} (h : o.Alike p) (request : Request)
    (answer : α → Answer) : Exchange.Alike ⟨request, s.respond o answer⟩ ⟨request, t.respond p answer⟩ where
  request := rfl
  reply _ := by
    simp only [Session.respond, h.result]
    exact .same _
  events := h.events
  session := ⟨h.machine, alike.slots⟩

theorem Alike.follow (alike : s.Alike t) {act : Action (Option Item)} (h : IgnoresPadding act) (request : Request)
    (k : Nat) : Exchange.Alike ⟨request, s.follow (Trace.follow act k (.begin s.machine))⟩
      ⟨request, t.follow (Trace.follow act k (.begin t.machine))⟩ := by
  have hbegin : (Trace.begin s.machine).Alike (.begin t.machine) := ⟨rfl, rfl, rfl, alike.machine⟩
  obtain ⟨hvisits, hfault, hevents, hmachine⟩ := hbegin.follow h k
  refine ⟨rfl, fun _ => ?_, ?_, hmachine, alike.slots⟩
  · simp only [Session.follow, hvisits, hfault]
    exact .same _
  · simp only [Session.follow, hevents]

/-- Sessions that are alike respond alike to a request. -/
theorem Alike.perform (alike : s.Alike t) {allowance : Nat} {request : Request} {response : Response}
    (performed : s.perform allowance request = some response) :
    ∃ response', t.perform allowance request = some response' ∧
      Exchange.Alike ⟨request, response⟩ ⟨request, response'⟩ := by
  match request, performed with
  | .call call, rfl => exact ⟨_, rfl, alike.respond ((IgnoresPadding.hereditary.perform call).alike alike.machine) _ _⟩
  | .step, rfl => exact ⟨_, rfl, alike.respond (IgnoresPadding.alike Machine.step_pad alike.machine) _ _⟩
  | .undo, rfl => exact ⟨_, rfl, alike.respond (IgnoresPadding.alike Machine.undo_pad alike.machine) _ _⟩
  | .run (some cap), rfl =>
    exact ⟨_, rfl, alike.respond ((Machine.runCapped_ignoresPadding cap).alike alike.machine) _ _⟩
  | .run none, performed =>
    obtain ⟨o, ho, rfl⟩ := Option.map_eq_some_iff.mp performed
    obtain ⟨p, hp, halike⟩ := alike.machine.runWithin? ho
    exact ⟨_, Option.map_eq_some_iff.mpr ⟨p, hp, rfl⟩, alike.respond halike _ _⟩
  | .save slot, rfl =>
    exact ⟨_, rfl, rfl, fun _ => .same _, rfl, alike.machine, .cons ⟨rfl, alike.machine.snapshot⟩ alike.slots⟩
  | .same slot, rfl => exact ⟨_, rfl, rfl, fun h => absurd rfl (h slot), rfl, alike⟩
  | .recall slot, rfl =>
    refine ⟨_, rfl, rfl, fun _ => ?_, rfl, alike⟩
    rcases lookup_alike alike.slots slot with ⟨hs, ht⟩ | ⟨a, b, hs, ht, hab⟩
    · simp only [tell, hs, ht]
      exact .same _
    · simp only [tell, hs, ht]
      exact .snapshot hab
  | .steps count, rfl => exact ⟨_, rfl, alike.follow Machine.step_pad _ _⟩
  | .undos count, rfl =>
    have hundo : IgnoresPadding (some <$> Machine.undo) := by
      rw [map_eq_pure_bind]
      exact IgnoresPadding.bind Machine.undo_pad fun _ => .pure _
    exact ⟨_, rfl, alike.follow hundo _ _⟩

/-- A request has one response, whatever allowance a run without a limit gets. -/
theorem perform_unique {a b : Nat} {request : Request} {response response' : Response}
    (h : s.perform a request = some response) (h' : s.perform b request = some response') : response = response' := by
  cases request with
  | run cap =>
    cases cap with
    | some cap => exact Option.some.inj (h.symm.trans h')
    | none =>
      obtain ⟨o, ho, rfl⟩ := Option.map_eq_some_iff.mp h
      obtain ⟨o', ho', rfl⟩ := Option.map_eq_some_iff.mp h'
      rw [Machine.runWithin?_unique ho ho']
  | _ => exact Option.some.inj (h.symm.trans h')

/-- The same requests can be made of a session that is alike, with responses that are alike. -/
theorem Course.exists_alike (alike : s.Alike s') (course : Course s exchanges t) :
    ∃ exchanges' t', Course s' exchanges' t' ∧ List.Forall₂ Exchange.Alike exchanges exchanges' ∧ t.Alike t' := by
  induction course with
  | begin => exact ⟨[], s', .begin, .nil, alike⟩
  | @next exchanges t allowance request response _ performed ih =>
    obtain ⟨exchanges', t', course', hexchanges, ht⟩ := ih
    obtain ⟨response', performed', hresponse⟩ := ht.perform performed
    exact ⟨_, _, course'.next performed', List.rel_append hexchanges (.cons hresponse .nil), hresponse.session⟩

/-- The requests decide the course. -/
theorem Course.unique (course : Course s exchanges t) (course' : Course s exchanges' t')
    (same : exchanges.map Exchange.request = exchanges'.map Exchange.request) : exchanges = exchanges' ∧ t = t' := by
  induction course generalizing exchanges' t' with
  | begin =>
    cases course' with
    | begin => exact ⟨rfl, rfl⟩
    | next => simp at same
  | next _ performed ih =>
    cases course' with
    | begin => simp at same
    | next before' performed' =>
      simp only [List.map_append, List.map_cons, List.map_nil] at same
      obtain ⟨hbefore, hlast⟩ := List.append_inj' same rfl
      obtain rfl := (List.cons.inj hlast).1
      obtain ⟨rfl, rfl⟩ := ih before' hbefore
      obtain rfl := perform_unique performed performed'
      exact ⟨rfl, rfl⟩

/--
Trailing zero cells are not seen. Whatever requests are made of one of two sessions that are alike, whatever they run,
they can be made of the other one too, and they always get responses that are alike and lead to sessions that are alike.
-/
theorem Course.trailing_zeros_unseen (alike : s.Alike s') (course : Course s exchanges t) :
    (∃ exchanges' t', Course s' exchanges' t' ∧ exchanges'.map Exchange.request = exchanges.map Exchange.request) ∧
      ∀ exchanges' t', Course s' exchanges' t' →
        exchanges'.map Exchange.request = exchanges.map Exchange.request →
          List.Forall₂ Exchange.Alike exchanges exchanges' ∧ t.Alike t' := by
  obtain ⟨exchanges', t', course', hexchanges, ht⟩ := course.exists_alike alike
  have hrequests : exchanges'.map Exchange.request = exchanges.map Exchange.request := by
    have hmap := List.rel_map (R := Exchange.Alike) (P := Eq) (fun _ _ h => h.request) hexchanges
    exact (List.forall₂_eq_eq_eq ▸ hmap : exchanges.map Exchange.request = exchanges'.map Exchange.request).symm
  refine ⟨⟨_, _, course', hrequests⟩, fun ys u course'' same => ?_⟩
  obtain ⟨rfl, rfl⟩ := course'.unique course'' (hrequests.trans same.symm)
  exact ⟨hexchanges, ht⟩

/-- An instruction fails half way on a tape that has grown for it and on one that had the cells already. -/
theorem Course.trailing_zeros_unseen_half_way :
    let m := Machine.start [.command .moveRight, .custom "far" [.moveRight, .fail "stop"] []] []
    ∃ exchanges t exchanges' t', Course ⟨m, []⟩ exchanges t ∧ Course ⟨m.pad 2, []⟩ exchanges' t' ∧
      exchanges.map Exchange.request = [.step, .step, .step, .undo] ∧
      t.machine.tape = ⟨[0], 0, [0]⟩ ∧ t'.machine.tape = ⟨[0], 0, [0]⟩ ∧
      List.Forall₂ Exchange.Alike exchanges exchanges' ∧ t.Alike t' := by
  intro m
  have alike : Session.Alike ⟨m, []⟩ ⟨m.pad 2, []⟩ := ⟨Machine.alike_iff.mpr ⟨m, 0, 2, by simp, rfl⟩, .nil⟩
  have course : Course ⟨m, []⟩ _ _ :=
    (((Course.begin.next (rfl : perform 0 _ .step = some _)).next (rfl : perform 0 _ .step = some _)).next
      (rfl : perform 0 _ .step = some _)).next (rfl : perform 0 _ .undo = some _)
  have course' : Course ⟨m.pad 2, []⟩ _ _ :=
    (((Course.begin.next (rfl : perform 0 _ .step = some _)).next (rfl : perform 0 _ .step = some _)).next
      (rfl : perform 0 _ .step = some _)).next (rfl : perform 0 _ .undo = some _)
  obtain ⟨-, unseen⟩ := trailing_zeros_unseen alike course
  exact ⟨_, _, _, _, course, course', rfl, rfl, rfl, unseen _ _ course' rfl⟩

end Session

end Rewind
