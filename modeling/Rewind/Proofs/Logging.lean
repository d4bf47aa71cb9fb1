import Rewind.Proofs.Accounts
import Rewind.Proofs.Strokes

/-!
# What the log tells

On a program of commands the log tells the history and the place of the pointer.

- `Record.follow?` reads a record as a change of a stack of symbols, by its words alone;
- `Attempt.Told` is what an attempt does to the history, the pointer and the log together: a record is written exactly
  where an instruction enters or leaves the history (`Machine.Reaches.told`). In a session of steps, undos and new input
  no undo fails that finds an instruction, so that nothing leaves the history unrecorded, and only the first step moves
  the pointer without a record, before there is any;
- `Machine.Logged` is kept by every attempt, hence `Session.Tried.log_faithful`.
-/

namespace Rewind

open Rewind.Action

/-! ## Records -/

namespace Record

/-- The record of an instruction that was executed. -/
def executed (symbol : String) (pointer : Pointer Nat) : Record :=
  let place := pointer.text
  ⟨.debug, s!"executed {symbol}, now at {place}"⟩

/-- The record of an instruction that was undone. -/
def undid (symbol : String) (pointer : Pointer Nat) : Record :=
  let place := pointer.text
  ⟨.debug, s!"undid {symbol}, now at {place}"⟩

/-- The character that the message of a record names after some words. -/
def named? (words : String) (r : Record) : Option Char :=
  (r.message.toList.dropPrefix? words.toList).bind List.head?

/--
A stack of symbols after a record: what was executed is pushed, and what was undone must be on top and is popped.
-/
def follow? (stack : List String) (r : Record) : Option (List String) :=
  match r.named? "executed " with
  | some x => some (String.singleton x :: stack)
  | none =>
    match stack with
    | [] => none
    | top :: rest => if (r.named? "undid ").map String.singleton = some top then some rest else none

theorem toList_executed (symbol : String) (p : Pointer Nat) :
    (executed symbol p).message.toList = "executed ".toList ++ (symbol.toList ++ (", now at " ++ p.text).toList) := by
  show ("executed " ++ symbol ++ ", now at " ++ p.text).toList = _
  simp only [String.toList_append, List.append_assoc]

theorem toList_undid (symbol : String) (p : Pointer Nat) :
    (undid symbol p).message.toList = "undid ".toList ++ (symbol.toList ++ (", now at " ++ p.text).toList) := by
  show ("undid " ++ symbol ++ ", now at " ++ p.text).toList = _
  simp only [String.toList_append, List.append_assoc]

theorem named?_of_toList {r : Record} {words : String} {x : Char} (rest : List Char)
    (h : r.message.toList = words.toList ++ x :: rest) : r.named? words = some x := by
  have hdrop : r.message.toList.dropPrefix? words.toList = some (x :: rest) :=
    List.dropPrefix?_eq_some_iff.mpr ⟨words.toList, h, beq_self_eq_true _⟩
  rw [named?, hdrop]
  rfl

theorem follow?_executed (stack : List String) (c : Command) (p : Pointer Nat) :
    follow? stack (executed c.symbol p) = some (c.symbol :: stack) := by
  have hname : (executed c.symbol p).named? "executed " = some c.char := by
    refine named?_of_toList (", now at " ++ p.text).toList ?_
    rw [toList_executed, Command.symbol, String.toList_singleton, List.singleton_append]
  unfold follow?
  rw [hname]
  rfl

theorem follow?_undid (stack : List String) (c : Command) (p : Pointer Nat) :
    follow? (c.symbol :: stack) (undid c.symbol p) = some stack := by
  have hother : (undid c.symbol p).named? "executed " = none := by
    rw [named?, toList_undid]
    rfl
  have hname : (undid c.symbol p).named? "undid " = some c.char := by
    refine named?_of_toList (", now at " ++ p.text).toList ?_
    rw [toList_undid, Command.symbol, String.toList_singleton, List.singleton_append]
  unfold follow?
  rw [hother, hname]
  exact if_pos rfl

end Record

/-! ## Attempts -/

/-- The record of an attempt: of a step that executes an instruction, and of an undo that succeeds. -/
def Attempt.record? : Attempt → Option Record
  | ⟨.step, m⟩ =>
    match Machine.step m with
    | ⟨.ok (some item), n, _⟩ => some (.executed item.symbol n.pointer)
    | _ => none
  | ⟨.undo, m⟩ =>
    match Machine.undo m with
    | ⟨.ok item, n, _⟩ => some (.undid item.symbol n.pointer)
    | _ => none
  | ⟨.call _, _⟩ => none

/-- What an attempt does to the history, the pointer and the log together. -/
inductive Attempt.Told (a : Attempt) : Prop
  | silent (log : Event.log a.events = []) (record : a.record? = none) (history : a.after.history = a.on.history)
    (pointer : a.on.pointer ≠ .start → a.after.pointer = a.on.pointer)
  | executed {c : Command} (log : Event.log a.events = [.executed c.symbol a.after.pointer])
    (record : a.record? = some (.executed c.symbol a.after.pointer))
    (history : a.after.history = .command c :: a.on.history) (inside : a.after.pointer ≠ .start)
  | undid {c : Command} (log : Event.log a.events = [.undid c.symbol a.after.pointer])
    (record : a.record? = some (.undid c.symbol a.after.pointer))
    (history : a.on.history = .command c :: a.after.history) (inside : a.after.pointer ≠ .start)

theorem Attempt.Told.log_eq {a : Attempt} (told : a.Told) : Event.log a.events = [a].filterMap record? := by
  cases told with
  | silent log record => simp [log, record]
  | executed log record => simp [log, record]
  | undid log record => simp [log, record]

theorem Command.TapeOnly.log_eq {es : List Event} (h : TapeOnly es) : Event.log es = [] := by
  rw [Event.log, List.filterMap_eq_nil_iff]
  intro e he
  obtain ⟨change, rfl, -⟩ := h e he
  rfl

namespace Machine

variable {o m : Machine}

theorem Reaches.regular (reaches : o.Reaches m) (regular : o.Regular) : m.Regular := by
  obtain ⟨steps, f, k, run, rfl⟩ := reaches
  exact ⟨(regular.repeats run).plain, (regular.repeats run).wellFormed⟩

/-- A step writes a record exactly where it executes a command. -/
theorem step_told (regular : m.Regular) : Attempt.Told ⟨.step, m⟩ := by
  have stepped := step_stepped regular
  rcases hstep : step m with ⟨r, n, es⟩
  rw [hstep] at stepped
  cases stepped with
  | entered start =>
    refine .silent ?_ ?_ ?_ ?_ <;> simp [Attempt.record?, hstep, start]
  | ended | refused =>
    refine .silent ?_ ?_ ?_ ?_ <;> simp [Attempt.record?, hstep]
  | @executed i j c w es on item works lands lt =>
    have hlog : Event.log (step m).events = [.executed c.symbol (step m).machine.pointer] := by
      rw [hstep, Event.log_append, works.tapeOnly.log_eq]
      rfl
    have hrecord : Attempt.record? ⟨.step, m⟩ = some (.executed c.symbol (step m).machine.pointer) := by
      simp only [Attempt.record?, hstep]
      rfl
    refine .executed hlog hrecord (by rw [Attempt.after_step, hstep]) ?_
    rw [Attempt.after_step, hstep]
    exact Pointer.atOrFinish_ne_start _ _

theorem log_undo_command {c : Command} {item : Item} {rest : List Item} (hm : m.history = .command c :: rest)
    (hundo : (undo m).result = .ok item) : Event.log (undo m).events = [.undid c.symbol (undo m).machine.pointer] := by
  rw [undo_of_history_eq_cons hm] at hundo ⊢
  have quiet := TellsTapeOnly.composable.inverse c { m with history := rest }
  rw [Item.inverse] at hundo ⊢
  rcases hinverse : c.inverse { m with history := rest } with ⟨r, n, es⟩
  rw [hinverse] at quiet hundo
  cases r with
  | error fault => cases hundo
  | ok _ =>
    rw [Outcome.andThen_ok, Event.log_append, quiet.log_eq]
    rfl

/-- On the way of a run, an undo that finds an instruction succeeds and writes its record. -/
theorem undo_told (regular : o.Regular) (ho : o.history = []) (reaches : o.Reaches m) : Attempt.Told ⟨.undo, m⟩ := by
  cases hm : m.history with
  | nil =>
    have hundo := undo_of_history_eq_nil hm
    refine .silent ?_ ?_ ?_ ?_ <;> simp [Attempt.record?, hundo]
  | cons item rest =>
    obtain ⟨u, es, hundo, hu, rfl, result, -⟩ := reaches.undo_cons regular ho hm
    have stepped := step_stepped (hu.regular regular)
    generalize Machine.step u = o' at stepped result
    cases stepped with
    | entered | ended | refused => cases result
    | @executed i j c w es on =>
      obtain rfl := Option.some.inj (Except.ok.inj result)
      have hlog := log_undo_command hm (by rw [hundo])
      refine .undid (c := c) ?_ ?_ ?_ ?_
      · rwa [Attempt.events_undo, Attempt.after_undo]
      · simp only [Attempt.record?, Attempt.after_undo, hundo]
        rfl
      · rw [Attempt.after_undo, hundo]
        exact hm
      · rw [Attempt.after_undo, hundo]
        simp [on]

theorem perform_supplyInput (data : List Int) (m : Machine) :
    ∃ r bytes, (Call.supplyInput data).perform m = ⟨r, { m with input := bytes }, []⟩ := by
  have hcall : (Call.supplyInput data).perform m = (supplyInput data m).andThen fun _ => pure .nothing := rfl
  rw [hcall, supplyInput_apply]
  cases Cell.listOfInts? data with
  | none => exact ⟨_, m.input, rfl⟩
  | some bytes => exact ⟨_, _, rfl⟩

variable {commands : List Command} {input given : List Cell} {a : Attempt}

/-- What the attempts of a session do, and that the machine stays on the way of a run. -/
theorem Reaches.told (reaches : (primed (commands.map .command) input given).Reaches a.on)
    (supply : ∀ call, a.deed = .call call → ∃ data, call = .supplyInput data) :
    a.Told ∧ ∃ given, (primed (commands.map .command) input given).Reaches a.after := by
  have regular := regular_primed commands input given
  obtain ⟨deed, m⟩ := a
  cases deed with
  | step => exact ⟨step_told (reaches.regular regular), given, reaches.step regular⟩
  | undo =>
    refine ⟨undo_told regular rfl reaches, given, ?_⟩
    rw [Attempt.after_undo]
    exact reaches.undo regular rfl
  | call call =>
    obtain ⟨data, rfl⟩ := supply call rfl
    obtain ⟨r, bytes, hcall⟩ := perform_supplyInput data m
    obtain ⟨read, -, hrest⟩ := reaches.supply
    refine ⟨.silent ?_ rfl ?_ ?_, read ++ bytes, ?_⟩
    · rw [Attempt.events_call, hcall]
      rfl
    · rw [Attempt.after_call, hcall]
    · rw [Attempt.after_call, hcall]
      exact fun _ => rfl
    · rw [Attempt.after_call, hcall]
      exact hrest bytes

/-! ## Sessions -/

/-- What the records of the log tell of a machine. -/
structure Logged (records : List Record) (m : Machine) : Prop where
  /-- They push and pop the symbols of the history. -/
  history : records.foldlM Record.follow? [] = some (m.history.map Item.symbol)
  /-- The last one tells where the pointer is. -/
  pointer : ∀ r, records.getLast? = some r →
    m.pointer ≠ .start ∧ ∃ symbol, r = .executed symbol m.pointer ∨ r = .undid symbol m.pointer

theorem Logged.attempt {records : List Record} (logged : Logged records a.on) (told : a.Told) :
    Logged (records ++ Event.log a.events) a.after := by
  cases told with
  | silent log _ history pointer =>
    rw [log, List.append_nil]
    refine ⟨by rw [history]; exact logged.history, fun r hr => ?_⟩
    obtain ⟨hstart, hplace⟩ := logged.pointer r hr
    rw [pointer hstart]
    exact ⟨hstart, hplace⟩
  | @executed c log _ history inside =>
    rw [log]
    constructor
    · simp [List.foldlM_append, logged.history, history, Record.follow?_executed, Item.symbol]
    · intro r hr
      rw [List.getLast?_concat] at hr
      exact ⟨inside, c.symbol, Or.inl (Option.some.inj hr).symm⟩
  | @undid c log _ history inside =>
    rw [log]
    constructor
    · simp [List.foldlM_append, logged.history, history, Record.follow?_undid, Item.symbol]
    · intro r hr
      rw [List.getLast?_concat] at hr
      exact ⟨inside, c.symbol, Or.inr (Option.some.inj hr).symm⟩

end Machine

namespace Session

variable {commands : List Command} {input : List Cell} {exchanges : List Exchange} {attempts : List Attempt} {s : Session}

/--
On a program of commands, the log of a session of steps, undos, runs and new input is a faithful trace. There is one
record for each step that executes an instruction, also inside a run, and one for each undo that succeeds, in order, with
the symbol and the place of the pointer after it, and there are no others. Read as pushes and pops, by their words alone,
the records never pop what is not on top, and they end in the symbols of the history. The last record tells where the
pointer is.
-/
theorem Tried.log_faithful (tried : Tried ⟨.start (commands.map .command) input, []⟩ exchanges attempts s)
    (proceeds : ∀ x ∈ exchanges, x.request.Proceeds) :
    Event.log (Exchange.events exchanges) = attempts.filterMap Attempt.record? ∧
      (Event.log (Exchange.events exchanges)).foldlM Record.follow? [] = some (s.machine.history.map Item.symbol) ∧
      ∀ r, (Event.log (Exchange.events exchanges)).getLast? = some r →
        ∃ symbol, r = .executed symbol s.machine.pointer ∨ r = .undid symbol s.machine.pointer := by
  have supply : ∀ a ∈ attempts, ∀ call, a.deed = .call call → ∃ data, call = .supplyInput data := by
    intro a ha call hcall
    obtain ⟨x, hx, hrequest⟩ := tried.exists_request ha hcall
    have hproceeds := proceeds x hx
    rw [hrequest] at hproceeds
    cases call with
    | supplyInput data => exact ⟨data, rfl⟩
    | _ => exact hproceeds.elim
  obtain ⟨-, hlog, logged⟩ := tried.tries.keeps
    (P := fun earlier past m => (∃ given, (Machine.primed (commands.map .command) input given).Reaches m) ∧
      Event.log past = earlier.filterMap Attempt.record? ∧ m.Logged (Event.log past))
    (fun earlier past a ha ⟨⟨given, reaches⟩, hlog, logged⟩ => by
      obtain ⟨told, hreached⟩ := reaches.told (supply a ha)
      refine ⟨hreached, ?_, ?_⟩
      · rw [Event.log_append, List.filterMap_append, hlog, told.log_eq]
      · rw [Event.log_append]
        exact logged.attempt told)
    [] [] ⟨⟨input, .refl _⟩, rfl, ⟨rfl, by simp⟩⟩
  exact ⟨hlog, logged.history, fun r hr => (logged.pointer r hr).2⟩

/-- A run that fails at once and an undo without history write nothing, and neither does a step past the end. -/
theorem Tried.log_faithful_waiting :
    ∃ exchanges attempts s,
      Tried ⟨.start ([.accept, .increment].map .command) [], []⟩ exchanges attempts s ∧
        exchanges.map Exchange.request =
          [.run none, .undo, .call (.supplyInput [9]), .run none, .step, .undo] ∧
        attempts.filterMap Attempt.record? =
          [⟨.debug, "executed ,, now at InstructionPointer.at(1)"⟩,
            ⟨.debug, "executed +, now at InstructionPointer.end()"⟩,
            ⟨.debug, "undid +, now at InstructionPointer.at(1)"⟩] ∧
        Event.log (Exchange.events exchanges) = attempts.filterMap Attempt.record? ∧
        (Event.log (Exchange.events exchanges)).foldlM Record.follow? [] = some (s.machine.history.map Item.symbol) ∧
        s.machine.history.map Item.symbol = [","] ∧ s.machine.pointer = .on 1 := by
  have waiting : Tried ⟨.start ([.accept, .increment].map .command) [], []⟩ _ _ _ :=
    (Tried.begin.next (rfl : perform 2 _ (.run none) = some _)).next (rfl : perform 0 _ .undo = some _)
  have tried := (((waiting.next (rfl : perform 0 _ (.call (.supplyInput [9])) = some _)).next
    (rfl : perform 3 _ (.run none) = some _)).next (rfl : perform 0 _ .step = some _)).next
    (rfl : perform 0 _ .undo = some _)
  obtain ⟨hlog, hhistory, -⟩ := log_faithful tried (by simp [Request.Proceeds])
  refine ⟨_, _, _, tried, rfl, ?_, hlog, hhistory, ?_, ?_⟩
  · decide +kernel
  · decide +kernel
  · decide +kernel

end Session

end Rewind
