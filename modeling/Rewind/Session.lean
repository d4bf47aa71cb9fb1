import Rewind.Trace

/-!
# Sessions

A session is a machine on which requests are made one after the other; it goes on after a fault. It also keeps
snapshots under names.

- `Session.start` makes the machine of a session, reading its program before its input;
- `Session.perform` answers one request. A run without a limit gets an allowance of steps; the request has no reply
  when it does not suffice.
-/

namespace Rewind

/-- A machine and the snapshots kept of it, newest first. -/
structure Session where
  machine : Machine
  slots : List (String × Snapshot)

/-- What can be asked of a session. -/
inductive Request
  | call (call : Call)
  | step
  | undo
  /-- Runs, with a limit on the steps or without one. -/
  | run (cap : Option Int)
  /-- Keeps a snapshot under a name. -/
  | save (slot : String)
  /-- Whether the snapshot kept under a name is that of the machine as it is. -/
  | same (slot : String)
  /-- The snapshot kept under a name. -/
  | recall (slot : String)
  | steps (count : Int)
  | undos (count : Int)

/-- The reply to a request. -/
inductive Reply
  | answer (result : Except Fault Answer)
  /-- The visits of a trace, oldest first, and the fault that it stopped at. -/
  | trace (visits : List Visit) (fault : Option Fault)

/-- A reply, what happened meanwhile, oldest first, and the session after it. -/
structure Response where
  reply : Reply
  events : List Event
  session : Session

namespace Session

/-- The session on a new machine. -/
def start (listing : Listing) (input : List Int) : Except Fault Session :=
  match listing.build, Cell.listOfInts? input with
  | .error fault, _ => .error fault
  | .ok _, none => .error .notBytes
  | .ok program, some bytes => .ok ⟨.start program bytes, []⟩

/-- The response that an outcome on the machine gives. -/
def respond {α : Type} (s : Session) (o : Outcome α) (answer : α → Answer) : Response :=
  ⟨.answer (o.result.map answer), o.events, { s with machine := o.machine }⟩

/-- The response to a request that leaves the machine alone. -/
def tell (s : Session) (answer : Answer) : Response := ⟨.answer (.ok answer), [], s⟩

/-- The response that a trace on the machine gives. -/
def follow (s : Session) (t : Trace) : Response :=
  ⟨.trace t.visits.reverse t.fault, t.events.reverse, { s with machine := t.machine }⟩

/-- Answers a request. -/
def perform (allowance : Nat) (s : Session) : Request → Option Response
  | .call call => some (s.respond (call.perform s.machine) id)
  | .step => some (s.respond (Machine.step s.machine) fun item => .symbol (item.map Item.symbol))
  | .undo => some (s.respond (Machine.undo s.machine) fun item => .symbol (some item.symbol))
  | .run (some cap) => some (s.respond (Machine.runCapped cap s.machine) .bytes)
  | .run none => (s.machine.runWithin? allowance).map fun o => s.respond o .bytes
  | .save slot => some (tell { s with slots := (slot, s.machine.snapshot) :: s.slots } .nothing)
  | .same slot => some (s.tell (.truth (s.slots.lookup slot = some s.machine.snapshot)))
  | .recall slot => some (s.tell (.snapshot (s.slots.lookup slot)))
  | .steps count => some (s.follow (s.machine.traceSteps count.toNat))
  | .undos count => some (s.follow (s.machine.traceUndos count.toNat))

end Session

end Rewind
