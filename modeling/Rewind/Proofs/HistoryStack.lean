import Rewind.Balance
import Rewind.Proofs.Strokes

/-!
# The history is a stack

As long as nothing starts over, the history is what the attempted steps and undos make of a stack, whatever the
instructions do and whatever is loaded meanwhile.

- `Item.Resets` tells the instructions that may start over; the effects of all others leave the history alone
  (`Item.forward_steady`, `Item.inverse_steady`), also where they load a program or fail half way;
- `Attempt.stack` pushes what a step executes and pops when an undo finds something. What is on the stack has been
  pushed by the latest step whose undo has not come yet: `Attempt.Layered`, where the attempts in between are balanced
  like brackets;
- `Session.Tried.history_stack` says that at every moment of a session this stack is the history.
-/

namespace Rewind

open Rewind.Action

/-! ## Instructions that start over -/

mutual

/-- One of the calls of the instruction starts over. -/
inductive Item.Resets : Item → Prop
  | forward {symbol : String} {forward inverse : List Call} {call : Call} (mem : call ∈ forward)
    (resets : call.Resets) : Item.Resets (.custom symbol forward inverse)
  | inverse {symbol : String} {forward inverse : List Call} {call : Call} (mem : call ∈ inverse)
    (resets : call.Resets) : Item.Resets (.custom symbol forward inverse)

/-- The call starts over, or loads an instruction that does. -/
inductive Call.Resets : Call → Prop
  | reset : Call.Resets .reset
  | load {entries : List Entry} {item : Item} (mem : .item item ∈ entries) (resets : item.Resets) :
    Call.Resets (.load (.entries entries))

end

theorem Item.not_resets_command (c : Command) : ¬(command c).Resets := by
  rintro ⟨⟩

theorem Item.resets_custom_iff {symbol : String} {forward inverse : List Call} :
    (custom symbol forward inverse).Resets ↔ ∃ call ∈ forward ++ inverse, call.Resets := by
  constructor
  · rintro (⟨mem, resets⟩ | ⟨mem, resets⟩)
    · exact ⟨_, List.mem_append_left _ mem, resets⟩
    · exact ⟨_, List.mem_append_right _ mem, resets⟩
  · rintro ⟨call, mem, resets⟩
    rcases List.mem_append.mp mem with mem | mem
    · exact .forward mem resets
    · exact .inverse mem resets

theorem Call.resets_iff {call : Call} :
    call.Resets ↔
      call = .reset ∨ ∃ entries item, call = .load (.entries entries) ∧ .item item ∈ entries ∧ item.Resets := by
  constructor
  · intro h
    cases h with
    | reset => exact Or.inl rfl
    | load mem resets => exact Or.inr ⟨_, _, rfl, mem, resets⟩
  · rintro (rfl | ⟨entries, item, rfl, mem, resets⟩)
    · exact .reset
    · exact .load mem resets

theorem exists_of_map_eq_ok {α β : Type} {f : α → β} {x : Except Fault α} {b : β} (h : x.map f = .ok b) :
    ∃ a, x = .ok a ∧ f a = b := by
  cases x with
  | error fault => cases h
  | ok a => exact ⟨a, rfl, Except.ok.inj h⟩

/-- Every instruction that is built is built from one of the entries. -/
theorem Entry.exists_of_mapM_build {entries : List Entry} {items : List Item}
    (built : entries.mapM build = .ok items) {item : Item} (hitem : item ∈ items) :
    ∃ entry ∈ entries, entry.build = .ok item := by
  induction entries generalizing items with
  | nil =>
    obtain rfl := Except.ok.inj built
    cases hitem
  | cons entry entries ih =>
    rw [List.mapM_cons] at built
    cases hfirst : entry.build with
    | error fault => rw [hfirst] at built; cases built
    | ok first =>
      cases hrest : entries.mapM build with
      | error fault => rw [hfirst, hrest] at built; cases built
      | ok rest =>
        rw [hfirst, hrest] at built
        obtain rfl := Except.ok.inj built
        rcases List.mem_cons.mp hitem with rfl | hitem
        · exact ⟨entry, List.mem_cons_self, hfirst⟩
        · obtain ⟨other, hother, hbuild⟩ := ih hrest hitem
          exact ⟨other, List.mem_cons_of_mem _ hother, hbuild⟩

/-- Every instruction that is loaded is a command or one of the entries. -/
theorem Listing.not_resets_of_build {listing : Listing} {items : List Item} (steady : ¬(Call.load listing).Resets)
    (built : listing.build = .ok items) : ∀ item ∈ items, ¬item.Resets := by
  intro item hitem
  cases listing with
  | source text =>
    obtain ⟨commands, -, rfl⟩ := exists_of_map_eq_ok built
    obtain ⟨c, -, rfl⟩ := List.mem_map.mp hitem
    exact Item.not_resets_command c
  | entries es =>
    obtain ⟨entry, hentry, hbuild⟩ := Entry.exists_of_mapM_build built hitem
    cases entry with
    | symbol symbol =>
      obtain ⟨c, -, rfl⟩ := exists_of_map_eq_ok hbuild
      exact Item.not_resets_command c
    | item other =>
      obtain rfl := Except.ok.inj hbuild
      exact fun resets => steady (.load hentry resets)

/-! ## Effects leave the history alone -/

/-- No instruction that the machine can execute or undo starts over. -/
structure Machine.Steady (m : Machine) : Prop where
  program : ∀ item ∈ m.program, ¬item.Resets
  history : ∀ item ∈ m.history, ¬item.Resets

/-- On a steady machine the action leaves the history alone, and the machine is steady after it. -/
def Action.LeavesHistory {α : Type} (x : Action α) : Prop :=
  ∀ m : Machine, m.Steady → (x m).machine.history = m.history ∧ (x m).machine.Steady

namespace Action.LeavesHistory

variable {α β : Type}

/-- What goes by strokes and tells only of the tape has left the program and the history alone. -/
theorem of_tellsTapeOnly {x : Action α} (strokes : ByStrokes x) (quiet : TellsTapeOnly x) : LeavesHistory x := by
  intro m steady
  obtain ⟨hprogram, hhistory⟩ := (strokes m).of_tapeOnly (quiet m)
  refine ⟨hhistory, ?_, ?_⟩
  · rw [hprogram]
    exact steady.program
  · rw [hhistory]
    exact steady.history

theorem keeps {x : Action α} (h : LeavesHistory x) (items : List Item) :
    Keeps (fun _ m => m.history = items ∧ m.Steady) x := by
  rintro _ m ⟨rfl, steady⟩
  exact h m steady

theorem pure (a : α) : LeavesHistory (Pure.pure a : Action α) := fun _ steady => ⟨rfl, steady⟩

theorem bind {x : Action α} {f : α → Action β} (hx : LeavesHistory x) (hf : ∀ a, LeavesHistory (f a)) :
    LeavesHistory (x >>= f) :=
  fun m steady => ((hx.keeps m.history).bind fun a => (hf a).keeps m.history) [] m ⟨rfl, steady⟩

end Action.LeavesHistory

theorem Call.perform_steady {call : Call} (steady : ¬call.Resets) : LeavesHistory call.perform := by
  rcases call.stays_or with stays | rfl | ⟨listing, rfl⟩
  · exact .of_tellsTapeOnly (ByStrokes.hereditary.perform call) (tapeOnly_of_stays stays)
  · exact absurd .reset steady
  · intro m hm
    rw [perform_load]
    cases hbuild : listing.build with
    | error fault => exact ⟨rfl, hm⟩
    | ok items => exact ⟨rfl, Listing.not_resets_of_build steady hbuild, hm.history⟩

theorem Call.performAll_steady {calls : List Call} (steady : ∀ call ∈ calls, ¬call.Resets) :
    LeavesHistory (performAll calls) := by
  induction calls with
  | nil => exact .pure ()
  | cons call calls ih =>
    rw [performAll_cons]
    exact (perform_steady (steady call List.mem_cons_self)).bind fun _ =>
      ih fun other hother => steady other (List.mem_cons_of_mem _ hother)

namespace Item

variable {item : Item}

theorem forward_steady (steady : ¬item.Resets) : LeavesHistory item.forward := by
  cases item with
  | command c => exact .of_tellsTapeOnly (ByStrokes.hereditary.forward c) (TellsTapeOnly.composable.forward c)
  | custom symbol forward inverse => exact Call.performAll_steady fun call hcall resets => steady (.forward hcall resets)

theorem inverse_steady (steady : ¬item.Resets) : LeavesHistory item.inverse := by
  cases item with
  | command c => exact .of_tellsTapeOnly (ByStrokes.hereditary.inverse c) (TellsTapeOnly.composable.inverse c)
  | custom symbol forward inverse => exact Call.performAll_steady fun call hcall resets => steady (.inverse hcall resets)

end Item

/-! ## The stack that attempts make -/

namespace Attempt

/-- The instruction that is executed: the step starts on it, and all of its effect succeeds. -/
def executed? : Attempt → Option Item
  | ⟨.step, m⟩ => m.current?.filter fun item => (item.forward m).result.isOk
  | _ => none

/-- The undo finds an instruction in the history, whether or not its effect succeeds. -/
def consumes : Attempt → Bool
  | ⟨.undo, m⟩ => !m.history.isEmpty
  | _ => false

/-- The stack after an attempt. -/
def note (stack : List Item) (a : Attempt) : List Item :=
  match a.executed? with
  | some item => item :: stack
  | none => if a.consumes then stack.tail else stack

/-- What is executed is pushed, and what is consumed is popped. -/
def stack (attempts : List Attempt) : List Item := attempts.foldl note []

/-- What is executed is opened, and what is consumed is closed. -/
def bracket? (a : Attempt) : Option Bracket :=
  match a.executed? with
  | some _ => some .opening
  | none => if a.consumes then some .closing else none

/-- Above each step whose instruction is on the stack, and below the first of them, the attempts are balanced. -/
inductive Layered : List Attempt → List Item → Prop
  | base {as : List Attempt} (balanced : Balanced bracket? as) : Layered as []
  | layer {below above : List Attempt} {stack : List Item} {a : Attempt} {item : Item} (rest : Layered below stack)
    (executed : a.executed? = some item) (balanced : Balanced bracket? above) :
    Layered (below ++ a :: above) (item :: stack)

variable {a : Attempt} {as bs : List Attempt} {s : List Item} {item : Item}

theorem stack_concat (as : List Attempt) (a : Attempt) : stack (as ++ [a]) = a.note (stack as) := by
  simp [stack]

theorem note_of_executed (h : a.executed? = some item) : a.note s = item :: s := by
  simp [note, h]

theorem note_of_consumes (h : a.executed? = none) (hconsumes : a.consumes) : a.note s = s.tail := by
  simp [note, h, hconsumes]

theorem note_of_neither (h : a.executed? = none) (hconsumes : a.consumes = false) : a.note s = s := by
  simp [note, h, hconsumes]

theorem Layered.append_balanced (h : Layered as s) (balanced : Balanced bracket? bs) : Layered (as ++ bs) s := by
  cases h with
  | base hbalanced => exact .base (hbalanced.append balanced)
  | layer rest executed hbalanced =>
    rw [List.append_assoc, List.cons_append]
    exact .layer rest executed (hbalanced.append balanced)

/-- An attempt that pops takes the topmost layer away, since it closes what was opened there. -/
theorem Layered.note (h : Layered as s) (found : a.consumes → s ≠ []) : Layered (as ++ [a]) (a.note s) := by
  cases hexecuted : a.executed? with
  | some item =>
    rw [note_of_executed hexecuted]
    exact .layer h hexecuted balanced_nil
  | none =>
    cases hconsumes : a.consumes with
    | false =>
      rw [note_of_neither hexecuted hconsumes]
      refine h.append_balanced (balanced_of_forall_none fun b hb => ?_)
      obtain rfl := List.mem_singleton.mp hb
      simp [bracket?, hexecuted, hconsumes]
    | true =>
      rw [note_of_consumes hexecuted hconsumes]
      cases h with
      | base => exact absurd rfl (found hconsumes)
      | layer rest executed balanced =>
        rw [List.append_assoc, List.cons_append]
        refine rest.append_balanced (balanced.enclose ?_ ?_)
        · simp [bracket?, executed]
        · simp [bracket?, hexecuted, hconsumes]

/-- There are as many layers as instructions were executed and not consumed. -/
theorem Layered.length_eq (h : Layered as s) : (s.length : Int) = excess bracket? as := by
  induction h with
  | base balanced => exact balanced.settled.symm
  | layer _ executed balanced ih =>
    rw [excess_append, excess_cons, balanced.settled, ← ih]
    simp [bracket?, executed, Bracket.weight]

end Attempt

/-! ## The history -/

namespace Machine

variable {m : Machine}

theorem step_steady (steady : m.Steady) :
    (step m).machine.history = Attempt.note m.history ⟨.step, m⟩ ∧ (step m).machine.Steady := by
  cases hcurrent : m.current? with
  | none =>
    have hadvance : LeavesHistory advance := .of_tellsTapeOnly advance_byStrokes TellsTapeOnly.composable.advance
    rw [step_of_current?_eq_none hcurrent, Attempt.note_of_neither (by simp [Attempt.executed?, hcurrent]) rfl]
    exact (hadvance.bind fun _ => .pure none) m steady
  | some item =>
    obtain ⟨i, -, hi⟩ := current?_eq_some_iff.mp hcurrent
    have hitem : ¬item.Resets := steady.program item (List.mem_of_getElem? hi)
    obtain ⟨hhistory, hsteady⟩ := Item.forward_steady hitem m steady
    rw [step_of_current?_eq_some hcurrent]
    rcases hforward : item.forward m with ⟨r, n, es⟩
    rw [hforward] at hhistory hsteady
    cases r with
    | error fault =>
      have hnone : Attempt.executed? ⟨.step, m⟩ = none := by
        simp [Attempt.executed?, hcurrent, hforward, Except.isOk, Except.toBool]
      rw [Attempt.note_of_neither hnone rfl]
      exact ⟨hhistory, hsteady⟩
    | ok u =>
      have hsome : Attempt.executed? ⟨.step, m⟩ = some item := by
        simp [Attempt.executed?, hcurrent, hforward, Except.isOk, Except.toBool]
      rw [Attempt.note_of_executed hsome, Outcome.andThen_ok, recordExecuted_apply, hhistory]
      refine ⟨rfl, hsteady.program, fun other hother => ?_⟩
      rcases List.mem_cons.mp hother with rfl | hother
      · exact hitem
      · exact steady.history other hother

theorem undo_steady (steady : m.Steady) :
    (undo m).machine.history = Attempt.note m.history ⟨.undo, m⟩ ∧ (undo m).machine.Steady := by
  cases hhistory : m.history with
  | nil =>
    rw [undo_of_history_eq_nil hhistory, Attempt.note_of_neither rfl (by simp [Attempt.consumes, hhistory])]
    exact ⟨hhistory, steady⟩
  | cons item rest =>
    have hitem : ¬item.Resets := steady.history item (by simp [hhistory])
    have hrest : Steady { m with history := rest } :=
      ⟨steady.program, fun other hother => steady.history other (by simp [hhistory, hother])⟩
    rw [undo_of_history_eq_cons hhistory, Attempt.note_of_consumes rfl (by simp [Attempt.consumes, hhistory])]
    have hrecord : LeavesHistory (recordUndone item) := fun _ hm => ⟨rfl, hm⟩
    exact ((Item.inverse_steady hitem).bind fun _ => hrecord) _ hrest

end Machine

/-- An attempt does to the history what is noted of it, and keeps the machine steady. -/
theorem Attempt.after_steady {a : Attempt} (steady : a.on.Steady) (calls : ∀ call, a.deed = .call call → ¬call.Resets) :
    a.after.history = a.note a.on.history ∧ a.after.Steady := by
  obtain ⟨deed, m⟩ := a
  cases deed with
  | step => exact Machine.step_steady steady
  | undo =>
    rw [after_undo]
    exact Machine.undo_steady steady
  | call call =>
    rw [after_call, note_of_neither rfl rfl]
    exact Call.perform_steady (calls call rfl) m steady

/-- What the machine's history has come to after some attempts. -/
structure Machine.Stacked (attempts : List Attempt) (m : Machine) : Prop where
  steady : m.Steady
  history : m.history = Attempt.stack attempts
  layered : Attempt.Layered attempts (Attempt.stack attempts)

namespace Machine

variable {m n : Machine} {as : List Attempt} {es : List Event}

theorem Stacked.attempt {a : Attempt} (stacked : a.on.Stacked as)
    (calls : ∀ call, a.deed = .call call → ¬call.Resets) : a.after.Stacked (as ++ [a]) := by
  obtain ⟨hhistory, hsteady⟩ := Attempt.after_steady stacked.steady calls
  refine ⟨hsteady, ?_, ?_⟩
  · rw [hhistory, Attempt.stack_concat, stacked.history]
  · rw [Attempt.stack_concat]
    refine stacked.layered.note fun hconsumes => ?_
    rw [← stacked.history]
    obtain ⟨deed, m⟩ := a
    cases deed with
    | undo => simpa [Attempt.consumes] using hconsumes
    | step | call => cases hconsumes

theorem Stacked.tries (start : m.Stacked []) (tries : m.Tries as es n)
    (calls : ∀ a ∈ as, ∀ call, a.deed = .call call → ¬call.Resets) : n.Stacked as :=
  tries.keeps (P := fun earlier _ m => m.Stacked earlier) (fun _ _ a ha stacked => stacked.attempt (calls a ha)) [] [] start

/-- The machine that the attempts still to come begin with. -/
theorem Stacked.of_split (start : m.Stacked []) (tries : m.Tries as es n)
    (calls : ∀ a ∈ as, ∀ call, a.deed = .call call → ¬call.Resets) (part rest : List Attempt) (has : as = part ++ rest) :
    ∃ (k : Machine) (fs : List Event), k.Stacked part ∧ k.Tries rest fs n := by
  subst has
  obtain ⟨past, fs, k, -, hpast, hrest⟩ := tries_append_iff.mp tries
  exact ⟨k, fs, start.tries hpast fun a ha => calls a (List.mem_append_left _ ha), hrest⟩

/-- What an undo takes back after some attempts. -/
inductive TakesBack (m : Machine) : List Attempt → Prop
  /-- All that was executed has been consumed. -/
  | nothing {before : List Attempt} (settled : Attempt.stack before = [])
    (failed : undo m = ⟨.error .noHistory, m, []⟩) : TakesBack m before
  /-- The instruction of the latest step that is not consumed: after it, all that was executed has been consumed. -/
  | latest {earlier between : List Attempt} {k : Machine} {item : Item} {rest : List Item}
    (executed : Attempt.executed? ⟨.step, k⟩ = some item) (consumed : Balanced Attempt.bracket? between)
    (found : Attempt.stack (earlier ++ ⟨.step, k⟩ :: between) = item :: rest)
    (undone : undo m = (item.inverse { m with history := rest }).andThen fun _ => recordUndone item) :
    TakesBack m (earlier ++ ⟨.step, k⟩ :: between)

theorem Stacked.takesBack (stacked : m.Stacked as) : m.TakesBack as := by
  have layered := stacked.layered
  have history := stacked.history
  generalize hs : Attempt.stack as = s at layered history
  cases layered with
  | base => exact .nothing hs (undo_of_history_eq_nil history)
  | @layer _ _ _ a _ _ executed balanced =>
    obtain ⟨deed, k⟩ := a
    cases deed with
    | step => exact .latest executed balanced hs (undo_of_history_eq_cons history)
    | undo | call => cases executed

end Machine

namespace Session

variable {program : List Item} {input : List Cell} {exchanges : List Exchange} {attempts : List Attempt} {s : Session}

/--
The history of a session is a stack, whatever its instructions are as long as none of them starts over. It is what the
attempts make of an empty one: a step pushes the instruction that it starts on, if the whole effect of that succeeds,
an undo pops if it finds something, even if it then fails, and nothing else counts. So it is before and after every
attempt, those inside a run included. It is as long as there were instructions executed less those consumed, and an undo
takes back what was executed last among those not consumed, whatever has been loaded since.
-/
theorem Tried.history_stack (tried : Tried ⟨.start program input, []⟩ exchanges attempts s)
    (steady : ∀ item ∈ program, ¬item.Resets)
    (calls : ∀ x ∈ exchanges, ∀ call, x.request = .call call → ¬call.Resets) :
    s.machine.history = Attempt.stack attempts ∧
      (∀ before a after, attempts = before ++ a :: after →
        a.on.history = Attempt.stack before ∧ a.after.history = Attempt.stack (before ++ [a])) ∧
      (∀ part, part <+: attempts → ((Attempt.stack part).length : Int) = excess Attempt.bracket? part) ∧
      ∀ before m after, attempts = before ++ ⟨.undo, m⟩ :: after → m.TakesBack before := by
  have start : (Machine.start program input).Stacked [] := ⟨⟨steady, by simp [Machine.start]⟩, rfl, .base balanced_nil⟩
  have quiet : ∀ a ∈ attempts, ∀ call, a.deed = .call call → ¬call.Resets := by
    intro a ha call hcall
    obtain ⟨x, hx, hrequest⟩ := tried.exists_request ha hcall
    exact calls x hx call hrequest
  have split := start.of_split tried.tries quiet
  have every : ∀ before a after, attempts = before ++ a :: after → a.on.Stacked before ∧ a.after.Stacked (before ++ [a]) := by
    rintro before a after rfl
    obtain ⟨n, rest, stacked, hrest⟩ := split before (a :: after) rfl
    cases hrest with
    | next deed _ => exact ⟨stacked, stacked.attempt (quiet _ (by simp))⟩
  refine ⟨(start.tries tried.tries quiet).history, fun before a after h => ?_, fun part ⟨rest, hrest⟩ => ?_,
    fun before m after h => (every before _ after h).1.takesBack⟩
  · obtain ⟨hon, hafter⟩ := every before a after h
    exact ⟨hon.history, hafter.history⟩
  · obtain ⟨n, -, stacked, -⟩ := split part rest hrest.symm
    exact stacked.layered.length_eq

/--
An instruction has replaced the program that it came from, and what then succeeded has been undone; its own undo fails
half way and takes it off the stack all the same.
-/
theorem Tried.history_stack_reloaded :
    ∃ exchanges before m s,
      Tried ⟨.start [.custom "swap"
          [.load (.entries [.symbol "+", .item (.custom "half" [.writeCell 7, .fail "stop"] [])]), .jump 0]
          [.moveRight, .fail "stay"]] [], []⟩ exchanges (before ++ [⟨.undo, m⟩]) s ∧
        exchanges.map Exchange.request = [.run none, .undo, .undo] ∧
        before.map (fun a => a.executed?.map Item.symbol) = [none, some "swap", some "+", none, none] ∧
        before.map Attempt.consumes = [false, false, false, false, true] ∧
        m.program.map Item.symbol = ["+", "half"] ∧ m.history.map Item.symbol = ["swap"] ∧ m.TakesBack before ∧
        s.machine.history = Attempt.stack (before ++ [⟨.undo, m⟩]) ∧ s.machine.tape.cells = [6, 0] ∧
        s.machine.history.length = 0 := by
  have tried : Tried ⟨.start [.custom "swap"
      [.load (.entries [.symbol "+", .item (.custom "half" [.writeCell 7, .fail "stop"] [])]), .jump 0]
      [.moveRight, .fail "stay"]] [], []⟩ _ _ _ :=
    ((Tried.begin.next (rfl : perform 4 _ (.run none) = some _)).next (rfl : perform 0 _ .undo = some _)).next
      (rfl : perform 0 _ .undo = some _)
  obtain ⟨hhistory, -, -, hundo⟩ := history_stack tried (by simp [Item.resets_custom_iff, Call.resets_iff]) (by simp)
  refine ⟨_, _, _, _, tried, rfl, ?_, ?_, ?_, ?_, hundo _ _ _ rfl, hhistory, ?_, ?_⟩
  · decide +kernel
  · decide +kernel
  · decide +kernel
  · decide +kernel
  · decide +kernel
  · decide +kernel

end Session

end Rewind
