import Rewind.Proofs.Retracing

/-!
# What is read of the input

A run reads a part of the pending input from its front. What comes after that part, and what the machine was made
with, makes no difference to the run and is left as it is (`Machine.feed_of_step`, `Machine.feed_of_repeats`).

`Event.taken` finds in the events of a machine at work the bytes that were read by the instructions executed and not
undone: an instruction that reads a byte stores it, and is recorded after that.
-/

namespace Rewind

open Rewind.Action

/-- The machine with other pending input, and as if it was made with other input. -/
def Machine.fed (m : Machine) (staged input : List Cell) : Machine := { m with staged := staged, input := input }

/-! ## Bytes taken, by the events -/

/-- What the events tell so far: the byte stored last, and the bytes taken from the input, in order. -/
structure Ledger where
  written : Cell
  taken : List Cell

/-- The ledger after one more event. Starting over gives everything back, undoing an instruction its own byte. -/
def Ledger.note (l : Ledger) : Event → Ledger
  | .tape (.write value) => { l with written := value }
  | .tape .clear => { l with taken := [] }
  | .executed symbol _ => if symbol = Command.accept.symbol then { l with taken := l.taken ++ [l.written] } else l
  | .undid symbol _ => if symbol = Command.accept.symbol then { l with taken := l.taken.dropLast } else l
  | _ => l

theorem Ledger.note_executed (l : Ledger) (symbol : String) (p : Pointer Nat) : l.note (.executed symbol p) =
    if symbol = Command.accept.symbol then { l with taken := l.taken ++ [l.written] } else l := rfl

theorem Ledger.note_undid (l : Ledger) (symbol : String) (p : Pointer Nat) : l.note (.undid symbol p) =
    if symbol = Command.accept.symbol then { l with taken := l.taken.dropLast } else l := rfl

/-- The bytes that the instructions executed and not undone have taken from the input, in order. -/
def Event.taken (events : List Event) : List Cell := (events.foldl Ledger.note ⟨0, []⟩).taken

namespace Event

variable {before es : List Event}

theorem taken_append_tapeOnly (h : Command.TapeOnly es) : taken (before ++ es) = taken before := by
  unfold taken
  rw [List.foldl_append]
  generalize before.foldl Ledger.note ⟨0, []⟩ = l
  induction es generalizing l with
  | nil => rfl
  | cons e es ih =>
    obtain ⟨change, rfl, hchange⟩ := h e (by simp)
    rw [List.foldl_cons, ih (fun e' he' => h e' (by simp [he']))]
    cases change with
    | right | left | write => rfl
    | clear => exact absurd rfl hchange

theorem taken_append_executed {symbol : String} {p : Pointer Nat} (h : symbol ≠ Command.accept.symbol) :
    taken (before ++ [executed symbol p]) = taken before := by
  unfold taken
  rw [List.foldl_append, List.foldl_cons, List.foldl_nil, Ledger.note_executed, if_neg h]

theorem taken_append_accepted (value : Cell) (p : Pointer Nat) :
    taken (before ++ [.tape (.write value), .executed Command.accept.symbol p]) = taken before ++ [value] := by
  unfold taken
  rw [List.foldl_append, List.foldl_cons, List.foldl_cons, List.foldl_nil, Ledger.note_executed, if_pos rfl]
  rfl

theorem taken_append_undid (symbol : String) (p : Pointer Nat) :
    taken (before ++ [undid symbol p]) =
      if symbol = Command.accept.symbol then (taken before).dropLast else taken before := by
  unfold taken
  rw [List.foldl_append, List.foldl_cons, List.foldl_nil, Ledger.note_undid, apply_ite Ledger.taken]

theorem taken_append_clear : taken (before ++ [.tape .clear]) = [] := by
  unfold taken
  rw [List.foldl_append]
  rfl

end Event

/-! ## Input behind what is taken -/

namespace Command

variable {m w : Machine} {c : Command} {es : List Event}

/-- A command reads one byte or none, and works alike whatever follows. -/
theorem Works.feed (h : Works m c w es) :
    ∃ taken, m.input = taken ++ w.input ∧
      (c = .accept ∧ (∃ value, taken = [value] ∧ es = [.tape (.write value)]) ∨ c ≠ .accept ∧ taken = []) ∧
      ∀ staged rest, Works (m.fed staged (taken ++ rest)) c (w.fed staged rest) es := by
  cases h with
  | moveRight => exact ⟨[], rfl, Or.inr ⟨by decide, rfl⟩, fun _ _ => .moveRight⟩
  | moveLeft moved => exact ⟨[], rfl, Or.inr ⟨by decide, rfl⟩, fun _ _ => .moveLeft moved⟩
  | increment => exact ⟨[], rfl, Or.inr ⟨by decide, rfl⟩, fun _ _ => .increment⟩
  | decrement => exact ⟨[], rfl, Or.inr ⟨by decide, rfl⟩, fun _ _ => .decrement⟩
  | emit => exact ⟨[], rfl, Or.inr ⟨by decide, rfl⟩, fun _ _ => .emit⟩
  | @accept value rest taken => exact ⟨[value], taken, Or.inl ⟨rfl, value, rfl, rfl⟩, fun _ _ => .accept rfl⟩
  | openLoop => exact ⟨[], rfl, Or.inr ⟨by decide, rfl⟩, fun _ _ => .openLoop⟩
  | closeLoop => exact ⟨[], rfl, Or.inr ⟨by decide, rfl⟩, fun _ _ => .closeLoop⟩

end Command

namespace Machine

variable {m n : Machine}

/-- How many instructions of the history read a byte. -/
def readers (m : Machine) : Nat := m.history.countP fun item => item.symbol = Command.accept.symbol

theorem readers_step (regular : m.Regular) {a : Option Item} (h : (step m).result = .ok a) :
    (step m).machine.readers = (if a.map Item.symbol = some Command.accept.symbol then 1 else 0) + m.readers := by
  rw [readers, step_history regular h, List.countP_append, readers]
  cases a with
  | none => simp
  | some item => simp [List.countP_cons]

/-- A step reads one byte or none, which its events tell of, and succeeds alike whatever follows. -/
theorem feed_of_step (regular : m.Regular) {a : Option Item} (h : (step m).result = .ok a) :
    ∃ taken, m.input = taken ++ (step m).machine.input ∧
      (∀ before, Event.taken (before ++ (step m).events) = Event.taken before ++ taken) ∧
      taken.length = (if a.map Item.symbol = some Command.accept.symbol then 1 else 0) ∧
      ∀ staged rest, step (m.fed staged (taken ++ rest)) =
        ⟨.ok a, (step m).machine.fed staged rest, (step m).events⟩ := by
  have stepped := step_stepped regular
  generalize ho : step m = o at stepped h
  cases stepped with
  | entered start =>
    obtain rfl := Except.ok.inj h
    refine ⟨[], rfl, by simp, by simp, fun staged rest => ?_⟩
    have hnone : (m.fed staged rest).current? = none := by simp [fed, current?, start, Pointer.index?]
    rw [List.nil_append, step_of_current?_eq_none hnone, advance_apply]
    simp only [fed, start, Pointer.next?, movedTo]
    rfl
  | ended | refused => cases h
  | executed on item works lands lt =>
    obtain rfl := Except.ok.inj h
    obtain ⟨taken, hinput, hkind, hworks⟩ := works.feed
    refine ⟨taken, hinput, fun before => ?_, ?_, fun staged rest => ?_⟩
    · rcases hkind with ⟨rfl, value, rfl, rfl⟩ | ⟨hne, rfl⟩
      · exact Event.taken_append_accepted value _
      · rw [← List.append_assoc, Event.taken_append_executed (by simpa [Command.symbol_inj] using hne),
          Event.taken_append_tapeOnly works.tapeOnly, List.append_nil]
    · rcases hkind with ⟨rfl, value, rfl, -⟩ | ⟨hne, rfl⟩
      · simp [Item.symbol]
      · simp [Item.symbol, Command.symbol_inj, hne]
    · exact step_of_works (m := m.fed staged (taken ++ rest)) on item (hworks staged rest) lands

/-- A run reads the front of the input, one byte for each reader, and goes on alike whatever follows. -/
theorem feed_of_repeats {as : List (Option Item)} (regular : m.Regular) (run : Repeats step m as n) :
    ∃ taken, m.input = taken ++ n.input ∧ n.readers = taken.length + m.readers ∧
      ∀ staged rest, Repeats step (m.fed staged (taken ++ rest)) as (n.fed staged rest) := by
  induction run with
  | none => exact ⟨[], rfl, by simp, fun staged rest => .none _⟩
  | once result _ ih =>
    obtain ⟨first, hfirst, -, hlen, hstep⟩ := feed_of_step regular result
    obtain ⟨later, hlater, hreaders, hrun⟩ := ih regular.step
    refine ⟨first ++ later, by rw [List.append_assoc, ← hlater]; exact hfirst, ?_, fun staged rest => ?_⟩
    · rw [hreaders, readers_step regular result, ← hlen, List.length_append]
      omega
    · have hstep := hstep staged (later ++ rest)
      rw [← List.append_assoc] at hstep
      refine .once (by rw [hstep]) ?_
      rw [hstep]
      exact hrun staged rest

end Machine

end Rewind
