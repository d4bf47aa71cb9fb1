import Rewind.Execution
import Rewind.Proofs.Partners

/-!
# One step

Everything that a step can do on a program of commands is said here once, so that no later proof looks into the
commands.

- `Command.Works` is what a command does apart from the pointer, `Command.Lands` where it leads, and
  `Command.Refuses` when it cannot be executed; `Command.forward_performed` says that this is all;
- `Command.work` is what a command does before the pointer goes on (`Command.forward_eq`). `Command.Worked` says what
  comes of it wherever the pointer is (`Command.work_worked`);
- `Machine.Stepped` lists the outcomes of a step where there is a command (`Machine.step_stepped_of_atCommand`), hence
  of every step on a program of commands (`Machine.step_stepped`).
-/

namespace Rewind

open Rewind.Action

namespace Pointer

theorem atOrFinish_of_lt {n i : Nat} (h : i < n) : atOrFinish n i = on i := if_pos h

theorem atOrFinish_ne_start (n i : Nat) : atOrFinish n i ≠ start := by
  unfold atOrFinish
  split <;> simp

end Pointer

namespace Command

/-- Over a cell with this value the command jumps to the partner of its bracket. -/
def Jumps : Command → Cell → Prop
  | openLoop, value => value = 0
  | closeLoop, value => value ≠ 0
  | _, _ => False

/-- What a command does to everything but the pointer, and the events that tell of it. -/
inductive Works (m : Machine) : Command → Machine → List Event → Prop
  | moveRight : Works m .moveRight { m with tape := m.tape.moveRight } [.tape .right]
  | moveLeft {t : Tape} (moved : m.tape.moveLeft? = some t) : Works m .moveLeft { m with tape := t } [.tape .left]
  | increment :
    Works m .increment { m with tape := m.tape.write (m.tape.here + 1) } [.tape (.write (m.tape.here + 1))]
  | decrement :
    Works m .decrement { m with tape := m.tape.write (m.tape.here - 1) } [.tape (.write (m.tape.here - 1))]
  | emit : Works m .emit { m with emitted := m.tape.here :: m.emitted } []
  | accept {value : Cell} {rest : List Cell} (taken : m.input = value :: rest) :
    Works m .accept
      { m with input := rest, overwritten := m.tape.here :: m.overwritten, tape := m.tape.write value }
      [.tape (.write value)]
  | openLoop : Works m .openLoop m []
  | closeLoop : Works m .closeLoop m []

/-- The instruction that the pointer goes on from: the command at `i` itself, or its partner after a jump. -/
inductive Lands (program : List Item) (i : Nat) (value : Cell) (c : Command) : Nat → Prop
  | stays (stays : ¬c.Jumps value) : Lands program i value c i
  | jumps {j : Nat} (jumps : c.Jumps value) (partner : matchingBracket program i = .ok (j : Int)) :
    Lands program i value c j

/-- Why a command at `i` cannot be executed. -/
inductive Refuses (m : Machine) (i : Nat) : Command → Fault → Prop
  | moveLeft (first : m.tape.moveLeft? = none) : Refuses m i .moveLeft .tapeUnderflow
  | accept (dry : m.input = []) : Refuses m i .accept .waiting
  | unpaired {c : Command} {fault : Fault} (jumps : c.Jumps m.tape.here)
    (single : matchingBracket m.program i = .error fault) : Refuses m i c fault

/-- What executing a command at `i` comes to, the history apart. -/
inductive Performed (m : Machine) (i : Nat) (c : Command) : Outcome Unit → Prop
  | done {w : Machine} {es : List Event} {j : Nat} (works : Works m c w es)
    (lands : Lands m.program i m.tape.here c j) (lt : j < m.program.length) :
    Performed m i c ⟨.ok (), { w with pointer := .atOrFinish m.program.length (j + 1) }, es⟩
  | refused {fault : Fault} (refuses : Refuses m i c fault) : Performed m i c ⟨.error fault, m, []⟩

/-- The events tell only of the cursor and of cells that are stored. -/
def TapeOnly (es : List Event) : Prop := ∀ e ∈ es, ∃ change, e = .tape change ∧ change ≠ .clear

variable {m w : Machine} {c : Command} {es : List Event} {i j : Nat}

theorem Works.program_eq (h : Works m c w es) : w.program = m.program := by cases h <;> rfl

theorem Works.pointer_eq (h : Works m c w es) : w.pointer = m.pointer := by cases h <;> rfl

theorem Works.history_eq (h : Works m c w es) : w.history = m.history := by cases h <;> rfl

theorem Works.staged_eq (h : Works m c w es) : w.staged = m.staged := by cases h <;> rfl

theorem Works.tapeOnly (h : Works m c w es) : TapeOnly es := by
  intro e he
  cases h <;> simp at he <;> exact ⟨_, he, by simp⟩

theorem Works.unique {w' : Machine} {es' : List Event} (h : Works m c w es) (h' : Works m c w' es') :
    w = w' ∧ es = es' := by
  cases h <;> cases h' <;> simp_all

theorem Lands.unique {program : List Item} {value : Cell} {k : Nat} (h : Lands program i value c j)
    (h' : Lands program i value c k) : j = k := by
  cases h with
  | stays stays =>
    cases h' with
    | stays => rfl
    | jumps jumps => exact absurd jumps stays
  | jumps jumps partner =>
    cases h' with
    | stays stays => exact absurd jumps stays
    | jumps _ partner' =>
      have := Except.ok.inj (partner.symm.trans partner')
      omega

/-- What is refused does not work, or has nowhere to land. -/
theorem Refuses.not_works {fault : Fault} (h : Refuses m i c fault) (works : Works m c w es)
    (lands : Lands m.program i m.tape.here c j) : False := by
  cases h with
  | moveLeft first => cases works; simp_all
  | accept dry => cases works; simp_all
  | unpaired jumps single => cases lands <;> simp_all

theorem Refuses.unique {fault fault' : Fault} (h : Refuses m i c fault) (h' : Refuses m i c fault') :
    fault = fault' := by
  cases h with
  | moveLeft =>
    cases h' with
    | moveLeft => rfl
    | unpaired jumps => exact jumps.elim
  | accept =>
    cases h' with
    | accept => rfl
    | unpaired jumps => exact jumps.elim
  | unpaired jumps single =>
    cases h' with
    | moveLeft | accept => exact jumps.elim
    | unpaired _ single' => exact Except.error.inj (single.symm.trans single')

theorem lands_lt {program : List Item} {value : Cell} (h : Lands program i value c j) (hi : i < program.length) :
    j < program.length := by
  cases h with
  | stays => exact hi
  | jumps _ partner =>
    have := matchingBracket_lt_length hi partner
    omega

/-- The pointer goes on from the instruction that it is on. -/
theorem advance_on (on : m.pointer = .on i) :
    Machine.advance m = ⟨.ok (), { m with pointer := .atOrFinish m.program.length (i + 1) }, []⟩ := by
  rw [Machine.advance_apply, on]
  rfl

theorem jumpToPartner_on (on : m.pointer = .on i) (hi : i < m.program.length) :
    (∃ j : Nat, matchingBracket m.program i = .ok (j : Int) ∧
      Machine.jumpToPartner m = ⟨.ok (), { m with pointer := .on j }, []⟩) ∨
    ∃ fault, matchingBracket m.program i = .error fault ∧ Machine.jumpToPartner m = ⟨.error fault, m, []⟩ := by
  simp only [Machine.jumpToPartner, bind_apply, get_apply, Outcome.andThen_ok, List.nil_append, on,
    Pointer.index?, ofExcept_apply]
  cases h : matchingBracket m.program i with
  | error fault => exact Or.inr ⟨fault, rfl, rfl⟩
  | ok j =>
    obtain ⟨hj, hlt⟩ := matchingBracket_lt_length hi h
    refine Or.inl ⟨j.toNat, by rw [Int.toNat_of_nonneg hj], ?_⟩
    simp [Machine.jump_apply, hj, hlt]

theorem jumpToPartner_of_index?_eq_none (off : m.pointer.index? = none) :
    Machine.jumpToPartner m = ⟨.error .noPosition, m, []⟩ := by
  simp only [Machine.jumpToPartner, bind_apply, get_apply, Outcome.andThen_ok, List.nil_append, off]
  rfl

/-! ## The work of a command -/

/-- What a command does before the pointer goes on. -/
def work : Command → Action Unit
  | moveRight => Machine.moveRight
  | moveLeft => Machine.moveLeft
  | increment => Machine.updateCell (· + 1)
  | decrement => Machine.updateCell (· - 1)
  | emit => do Machine.emitByte (← Machine.readCell)
  | accept => do
    let value ← Machine.nextInput
    Machine.saveCell
    Machine.writeByte value
  | openLoop => do if (← Machine.readCell) = 0 then Machine.jumpToPartner
  | closeLoop => do if (← Machine.readCell) ≠ 0 then Machine.jumpToPartner

theorem forward_eq (c : Command) :
    c.forward = (do
      c.work
      Machine.advance) := by
  cases c with
  | accept | emit => simp [forward, work]
  | openLoop | closeLoop =>
    funext m
    simp only [forward, work, bind_apply, Machine.readCell_apply, Outcome.andThen_ok, List.nil_append]
    split <;> rfl
  | _ => rfl

/-- Why a command cannot do its work, wherever the pointer is. -/
inductive Balks (m : Machine) : Command → Fault → Prop
  | firstCell (first : m.tape.cursor = 0) : Balks m .moveLeft .tapeUnderflow
  | dry (empty : m.input = []) : Balks m .accept .waiting
  | unpaired {c : Command} {i : Nat} {fault : Fault} (jumps : c.Jumps m.tape.here) (on : m.pointer = .on i)
    (single : matchingBracket m.program i = .error fault) : Balks m c fault
  /-- There is no bracket to find the partner of. -/
  | nowhere {c : Command} (jumps : c.Jumps m.tape.here) (off : m.pointer.index? = none) : Balks m c .noPosition

/-- What the work of a command comes to. -/
inductive Worked (m : Machine) (c : Command) : Outcome Unit → Prop
  | done {w : Machine} {es : List Event} (stays : ¬c.Jumps m.tape.here) (works : Works m c w es) :
    Worked m c ⟨.ok (), w, es⟩
  | jumped {i j : Nat} (jumps : c.Jumps m.tape.here) (on : m.pointer = .on i)
    (partner : matchingBracket m.program i = .ok (j : Int)) : Worked m c ⟨.ok (), { m with pointer := .on j }, []⟩
  | balked {fault : Fault} (balks : Balks m c fault) : Worked m c ⟨.error fault, m, []⟩

theorem work_of_jumps (jumps : c.Jumps m.tape.here) : c.work m = Machine.jumpToPartner m := by
  cases c with
  | openLoop =>
    have zero : m.tape.here = 0 := jumps
    simp only [work, bind_apply, Machine.readCell_apply, Outcome.andThen_ok, List.nil_append, if_pos zero]
  | closeLoop =>
    have nonzero : m.tape.here ≠ 0 := jumps
    simp only [work, bind_apply, Machine.readCell_apply, Outcome.andThen_ok, List.nil_append, if_pos nonzero]
  | _ => exact jumps.elim

/-- A command that jumps does nothing to anything but the pointer. -/
theorem works_of_jumps (jumps : c.Jumps m.tape.here) : Works m c m [] := by
  cases c with
  | openLoop => exact .openLoop
  | closeLoop => exact .closeLoop
  | _ => exact jumps.elim

theorem Works.work (works : Works m c w es) (stays : ¬c.Jumps m.tape.here) : c.work m = ⟨.ok (), w, es⟩ := by
  cases works with
  | moveRight => exact Machine.moveRight_apply m
  | moveLeft moved =>
    show Machine.moveLeft m = _
    rw [Machine.moveLeft_apply, moved]
  | increment | decrement => exact Machine.updateCell_apply _ m
  | emit => rfl
  | accept taken => simp [Command.work, Machine.nextInput_apply, taken]
  | openLoop =>
    have nonzero : ¬m.tape.here = 0 := stays
    simp only [Command.work, bind_apply, Machine.readCell_apply, Outcome.andThen_ok, List.nil_append, if_neg nonzero]
    rfl
  | closeLoop =>
    have zero : ¬m.tape.here ≠ 0 := stays
    simp only [Command.work, bind_apply, Machine.readCell_apply, Outcome.andThen_ok, List.nil_append, if_neg zero]
    rfl

theorem Balks.work {fault : Fault} (balks : Balks m c fault) : c.work m = ⟨.error fault, m, []⟩ := by
  cases balks with
  | firstCell first =>
    show Machine.moveLeft m = _
    rw [Machine.moveLeft_apply, Tape.moveLeft?_eq_none_iff.mpr first]
  | dry empty => simp [Command.work, Machine.nextInput_apply, empty]
  | unpaired jumps on single =>
    rw [work_of_jumps jumps]
    simp only [Machine.jumpToPartner, bind_apply, get_apply, Outcome.andThen_ok, List.nil_append, on, Pointer.index?,
      ofExcept_apply, single, Outcome.andThen_error]
  | nowhere jumps off => rw [work_of_jumps jumps, jumpToPartner_of_index?_eq_none off]

/-- A command that does not jump does its work unless it balks. -/
theorem works_or_balks (m : Machine) (stays : ¬c.Jumps m.tape.here) :
    (∃ w es, Works m c w es) ∨ ∃ fault, Balks m c fault := by
  cases c with
  | moveRight => exact Or.inl ⟨_, _, .moveRight⟩
  | moveLeft =>
    cases h : m.tape.moveLeft? with
    | none => exact Or.inr ⟨_, .firstCell (Tape.moveLeft?_eq_none_iff.mp h)⟩
    | some t => exact Or.inl ⟨_, _, .moveLeft h⟩
  | increment => exact Or.inl ⟨_, _, .increment⟩
  | decrement => exact Or.inl ⟨_, _, .decrement⟩
  | emit => exact Or.inl ⟨_, _, .emit⟩
  | accept =>
    cases h : m.input with
    | nil => exact Or.inr ⟨_, .dry h⟩
    | cons value rest => exact Or.inl ⟨_, _, .accept h⟩
  | openLoop => exact Or.inl ⟨_, _, .openLoop⟩
  | closeLoop => exact Or.inl ⟨_, _, .closeLoop⟩

theorem work_worked (wellFormed : m.WellFormed) (c : Command) : Worked m c (c.work m) := by
  by_cases jumps : c.Jumps m.tape.here
  · cases hp : m.pointer with
    | start | finish =>
      have balks : Balks m c .noPosition := .nowhere jumps (by rw [hp]; rfl)
      rw [balks.work]
      exact .balked balks
    | on i =>
      have hi : i < m.program.length := by rwa [Machine.WellFormed, hp] at wellFormed
      rw [work_of_jumps jumps]
      rcases jumpToPartner_on hp hi with ⟨j, partner, hjump⟩ | ⟨fault, single, hjump⟩
      · rw [hjump]
        exact .jumped jumps hp partner
      · rw [hjump]
        exact .balked (.unpaired jumps hp single)
  · rcases works_or_balks m jumps with ⟨w, es, works⟩ | ⟨fault, balks⟩
    · rw [works.work jumps]
      exact .done jumps works
    · rw [balks.work]
      exact .balked balks

/-- On an instruction a command that balks is refused. -/
theorem Balks.refuses {fault : Fault} (balks : Balks m c fault) (on : m.pointer = .on i) : Refuses m i c fault := by
  cases balks with
  | firstCell first => exact .moveLeft (Tape.moveLeft?_eq_none_iff.mpr first)
  | dry empty => exact .accept empty
  | unpaired jumps on' single =>
    obtain rfl := Pointer.on.inj (on'.symm.trans on)
    exact .unpaired jumps single
  | nowhere _ off =>
    rw [on] at off
    cases off

/-! ## The effect of a command on an instruction -/

/-- On an instruction a command does its work and moves on, or it is refused and nothing has happened. -/
theorem forward_performed (c : Command) (on : m.pointer = .on i) (hi : i < m.program.length) :
    Performed m i c (c.forward m) := by
  have wellFormed : m.WellFormed := by
    rw [Machine.WellFormed, on]
    exact hi
  have worked := work_worked wellFormed c
  rw [forward_eq, bind_apply]
  generalize c.work m = o at worked
  cases worked with
  | @done w es stays works =>
    have hprogram : w.program.length = m.program.length := congrArg List.length works.program_eq
    rw [Outcome.andThen_ok, advance_on (works.pointer_eq.trans on), hprogram, List.append_nil]
    exact .done works (.stays stays) hi
  | @jumped k j jumps on' partner =>
    obtain rfl := Pointer.on.inj (on'.symm.trans on)
    have lands : Lands m.program k m.tape.here c j := .jumps jumps partner
    have performed : Performed m k c ⟨.ok (), { m with pointer := .atOrFinish m.program.length (j + 1) }, []⟩ :=
      .done (works_of_jumps jumps) lands (lands_lt lands hi)
    rw [Outcome.andThen_ok, advance_on (i := j) rfl]
    exact performed
  | balked balks =>
    rw [Outcome.andThen_error]
    exact .refused (balks.refuses on)

/-- A command that works and lands somewhere succeeds. -/
theorem forward_of_works (on : m.pointer = .on i) (hi : i < m.program.length) (works : Works m c w es)
    (lands : Lands m.program i m.tape.here c j) :
    c.forward m = ⟨.ok (), { w with pointer := .atOrFinish m.program.length (j + 1) }, es⟩ := by
  have performed := forward_performed c on hi
  generalize c.forward m = o at performed
  cases performed with
  | done works' lands' =>
    obtain ⟨rfl, rfl⟩ := works.unique works'
    rw [lands.unique lands']
  | refused refuses => exact (refuses.not_works works lands).elim

/-- A command that is refused fails and does nothing. -/
theorem forward_of_refuses {fault : Fault} (on : m.pointer = .on i) (hi : i < m.program.length)
    (refuses : Refuses m i c fault) : c.forward m = ⟨.error fault, m, []⟩ := by
  have performed := forward_performed c on hi
  generalize c.forward m = o at performed
  cases performed with
  | done works lands => exact (refuses.not_works works lands).elim
  | refused refuses' => rw [refuses.unique refuses']

end Command

namespace Machine

/-- The program has no custom instructions. -/
def Plain (m : Machine) : Prop := ∃ commands : List Command, m.program = commands.map .command

/-- The machine is at a position of a program of commands. -/
structure Regular (m : Machine) : Prop where
  plain : m.Plain
  wellFormed : m.WellFormed

/-- What a step on a program of commands comes to. -/
inductive Stepped (m : Machine) : Outcome (Option Item) → Prop
  | entered (start : m.pointer = .start) :
    Stepped m ⟨.ok none, { m with pointer := .atOrFinish m.program.length 0 }, []⟩
  | ended (finish : m.pointer = .finish) : Stepped m ⟨.error .pastEnd, m, []⟩
  | executed {i j : Nat} {c : Command} {w : Machine} {es : List Event} (on : m.pointer = .on i)
    (item : m.program[i]? = some (.command c)) (works : c.Works m w es)
    (lands : c.Lands m.program i m.tape.here j) (lt : j < m.program.length) :
    Stepped m ⟨.ok (some (.command c)),
      { w with pointer := .atOrFinish m.program.length (j + 1), history := .command c :: m.history },
      es ++ [.executed c.symbol (.atOrFinish m.program.length (j + 1))]⟩
  | refused {i : Nat} {c : Command} {fault : Fault} (on : m.pointer = .on i)
    (item : m.program[i]? = some (.command c)) (refuses : c.Refuses m i fault) :
    Stepped m ⟨.error fault, m, []⟩

variable {m : Machine}

theorem Plain.command_at (h : m.Plain) {i : Nat} (hi : i < m.program.length) :
    ∃ c, m.program[i]? = some (.command c) := by
  obtain ⟨commands, hc⟩ := h
  have hlt : i < commands.length := by rw [hc, List.length_map] at hi; exact hi
  exact ⟨commands[i], by rw [hc, List.getElem?_map, List.getElem?_eq_getElem hlt]; rfl⟩

theorem current?_eq_some_iff {item : Item} :
    m.current? = some item ↔ ∃ i, m.pointer = .on i ∧ m.program[i]? = some item := by
  unfold current?
  cases m.pointer <;> simp [Pointer.index?]

theorem current?_on {i : Nat} (on : m.pointer = .on i) : m.current? = m.program[i]? := by
  simp [current?, on, Pointer.index?]

theorem bracket?_of_current? {i : Nat} {c : Command} {b : Bracket} (on : m.pointer = .on i)
    (current : m.current? = some (.command c)) (hc : c.bracket? = some b) :
    m.program[i]?.bind Item.bracket? = some b := by
  rw [← current?_on on, current]
  exact hc

theorem step_of_current?_eq_none (h : m.current? = none) :
    step m = (advance m).andThen fun _ => pure none := by
  simp only [step, bind_apply, get_apply, Outcome.andThen_ok, List.nil_append, h]

/-- What a step does once the effect of its instruction is there. -/
def recordExecuted (item : Item) : Action (Option Item) := do
  modify fun m => { m with history := item :: m.history }
  emit (.executed item.symbol (← get).pointer)
  return some item

theorem recordExecuted_apply (item : Item) (m : Machine) :
    recordExecuted item m =
      ⟨.ok (some item), { m with history := item :: m.history }, [.executed item.symbol m.pointer]⟩ := rfl

theorem step_of_current?_eq_some {item : Item} (h : m.current? = some item) :
    step m = (item.forward m).andThen fun _ => recordExecuted item := by
  simp only [step, bind_apply, get_apply, Outcome.andThen_ok, List.nil_append, h]
  rfl

/-- What an undo does once the effect that undoes its instruction is there. -/
def recordUndone (item : Item) : Action Item := do
  emit (.undid item.symbol (← get).pointer)
  return item

theorem undo_of_history_eq_nil (h : m.history = []) : undo m = ⟨.error .noHistory, m, []⟩ := by
  simp only [undo, bind_apply, get_apply, Outcome.andThen_ok, List.nil_append, h]
  rfl

theorem undo_of_history_eq_cons {item : Item} {rest : List Item} (h : m.history = item :: rest) :
    undo m = (item.inverse { m with history := rest }).andThen fun _ => recordUndone item := by
  simp only [undo, bind_apply, get_apply, set_apply, Outcome.andThen_ok, List.nil_append, h]
  rfl

/-- The instruction under the pointer, if there is one, is a command. -/
def AtCommand (m : Machine) : Prop := ∀ item, m.current? = some item → ∃ c, item = .command c

theorem Regular.atCommand (regular : m.Regular) : m.AtCommand := by
  intro item hitem
  obtain ⟨i, -, hi⟩ := current?_eq_some_iff.mp hitem
  obtain ⟨c, hc⟩ := regular.plain.command_at (List.getElem?_eq_some_iff.mp hi).1
  exact ⟨c, Option.some.inj (hi.symm.trans hc)⟩

/-- Everything that a step can do where there is a command, whatever else is in the program. -/
theorem step_stepped_of_atCommand (wellFormed : m.WellFormed) (atCommand : m.AtCommand) : Stepped m (step m) := by
  cases hp : m.pointer with
  | start =>
    rw [step_of_current?_eq_none (by simp [current?, hp, Pointer.index?]), advance_apply, hp]
    exact .entered hp
  | finish =>
    rw [step_of_current?_eq_none (by simp [current?, hp, Pointer.index?]), advance_apply, hp]
    exact .ended hp
  | on i =>
    have hi : i < m.program.length := by rw [WellFormed, hp] at wellFormed; exact wellFormed
    have hitem := List.getElem?_eq_getElem hi
    obtain ⟨c, hc⟩ := atCommand _ (current?_eq_some_iff.mpr ⟨i, hp, hitem⟩)
    rw [hc] at hitem
    rw [step_of_current?_eq_some (current?_eq_some_iff.mpr ⟨i, hp, hitem⟩), Item.forward]
    have performed := Command.forward_performed c hp hi
    generalize c.forward m = o at performed
    cases performed with
    | @done w es j works lands lt =>
      rw [Outcome.andThen_ok, recordExecuted_apply, works.history_eq]
      exact .executed (w := w) hp hitem works lands lt
    | refused refuses => exact .refused hp hitem refuses

/-- Everything that a step can do on a program of commands. -/
theorem step_stepped (regular : m.Regular) : Stepped m (step m) :=
  step_stepped_of_atCommand regular.wellFormed regular.atCommand

/-- A step that fails changes nothing and tells nothing. -/
theorem Stepped.of_error {o : Outcome (Option Item)} {fault : Fault} (stepped : Stepped m o)
    (h : o.result = .error fault) : o = ⟨.error fault, m, []⟩ := by
  cases stepped with
  | entered | executed => cases h
  | ended | refused =>
    obtain rfl := Except.error.inj h
    rfl

/-- A step whose command works and lands somewhere. -/
theorem step_of_works {i j : Nat} {c : Command} {w : Machine} {es : List Event} (on : m.pointer = .on i)
    (item : m.program[i]? = some (.command c)) (works : c.Works m w es)
    (lands : c.Lands m.program i m.tape.here j) :
    step m = ⟨.ok (some (.command c)),
      { w with pointer := .atOrFinish m.program.length (j + 1), history := .command c :: m.history },
      es ++ [.executed c.symbol (.atOrFinish m.program.length (j + 1))]⟩ := by
  have hi : i < m.program.length := (List.getElem?_eq_some_iff.mp item).1
  rw [step_of_current?_eq_some (current?_eq_some_iff.mpr ⟨i, on, item⟩), Item.forward,
    Command.forward_of_works on hi works lands,
    Outcome.andThen_ok, recordExecuted_apply, works.history_eq]
  rfl

/-- A step whose command is refused. -/
theorem step_of_refuses {i : Nat} {c : Command} {fault : Fault} (on : m.pointer = .on i)
    (item : m.program[i]? = some (.command c)) (refuses : c.Refuses m i fault) :
    step m = ⟨.error fault, m, []⟩ := by
  have hi : i < m.program.length := (List.getElem?_eq_some_iff.mp item).1
  rw [step_of_current?_eq_some (current?_eq_some_iff.mpr ⟨i, on, item⟩), Item.forward,
    Command.forward_of_refuses on hi refuses,
    Outcome.andThen_error]

/-! ## What a step does to the parts of the machine -/

theorem step_program (regular : m.Regular) : (step m).machine.program = m.program := by
  have stepped := step_stepped regular
  generalize step m = o at stepped
  cases stepped with
  | executed _ _ works => exact works.program_eq
  | entered | ended | refused => rfl

/-- A step stays at the positions of the program. -/
theorem Regular.step (regular : m.Regular) : (step m).machine.Regular := by
  obtain ⟨commands, hc⟩ := regular.plain
  have hprogram := step_program regular
  refine ⟨⟨commands, hprogram.trans hc⟩, ?_⟩
  unfold WellFormed
  rw [hprogram]
  have stepped := step_stepped regular
  generalize Machine.step m = o at stepped
  cases stepped with
  | entered | executed => exact Pointer.inRange_atOrFinish _ _
  | ended | refused => exact regular.wellFormed

/-- After a step that succeeded the pointer is not before the program. -/
theorem pointer_ne_start_of_step (regular : m.Regular) {a : Option Item} (h : (step m).result = .ok a) :
    (step m).machine.pointer ≠ .start := by
  have stepped := step_stepped regular
  generalize step m = o at stepped h
  cases stepped with
  | entered | executed => exact Pointer.atOrFinish_ne_start _ _
  | ended | refused => cases h

/-- A step that succeeds executes an instruction unless the pointer is before the program. -/
theorem step_value (regular : m.Regular) {a : Option Item} (h : (step m).result = .ok a) :
    (m.pointer = .start ∧ a = none) ∨ m.pointer ≠ .start ∧ ∃ item, a = some item := by
  have stepped := step_stepped regular
  generalize step m = o at stepped h
  cases stepped with
  | entered start => exact Or.inl ⟨start, (Except.ok.inj h).symm⟩
  | executed on => exact Or.inr ⟨by simp [on], _, (Except.ok.inj h).symm⟩
  | ended | refused => cases h

theorem step_staged (regular : m.Regular) : (step m).machine.staged = m.staged := by
  have stepped := step_stepped regular
  generalize step m = o at stepped
  cases stepped with
  | executed _ _ works => exact works.staged_eq
  | entered | ended | refused => rfl

theorem step_history (regular : m.Regular) {a : Option Item} (h : (step m).result = .ok a) :
    (step m).machine.history = a.toList ++ m.history := by
  have stepped := step_stepped regular
  generalize step m = o at stepped h
  cases stepped with
  | entered | executed =>
    obtain rfl := Except.ok.inj h
    rfl
  | ended | refused => cases h

theorem step_of_error (regular : m.Regular) {fault : Fault} (h : (step m).result = .error fault) :
    step m = ⟨.error fault, m, []⟩ := (step_stepped regular).of_error h

end Machine

end Rewind
