import Rewind.Proofs.Course
import Rewind.Proofs.Hereditary
import Rewind.Proofs.Stepping
import Rewind.Tape.Course

/-!
# What an operation can do

Whatever an effect does to a machine, it does by strokes: `Machine.Stroke` lists them, and `ByStrokes.hereditary` says
that every call and every instruction, custom ones included, goes from stroke to stroke, also when it fails half way.
What every stroke keeps and what the entries of the history keep, of the events so far and the machine, is a
`Machine.Lasting` property, and a session keeps it whatever its caller does (`Session.Handled.lasting`).

Calls that neither load a program nor start over tell only of the tape (`Action.TellsTapeOnly.composable`), and strokes
that tell of nothing else leave the program and the history alone (`Machine.Strokes.of_tapeOnly`).
-/

namespace Rewind

open Rewind.Action

namespace Machine

/-- The least that an effect does to a machine, with the events that tell of it. -/
inductive Stroke (m : Machine) : List Event → Machine → Prop
  /-- The pointer moves, from a position of the program to a position of the program. -/
  | point {p : Pointer Nat} (inside : m.WellFormed → p.InRange m.program.length) : Stroke m [] { m with pointer := p }
  /-- The cursor moves or a cell is stored. -/
  | tape {change : Tape.Change} {t : Tape} (kept : change ≠ .clear) (made : m.tape.change? change = some t) :
    Stroke m [.tape change] { m with tape := t }
  | emitted (bytes : List Cell) : Stroke m [] { m with emitted := bytes }
  | input (bytes : List Cell) : Stroke m [] { m with input := bytes }
  | overwritten (bytes : List Cell) : Stroke m [] { m with overwritten := bytes }
  | load (program : List Item) :
    Stroke m (loadEvents program.length m.pointer)
      { m with program := program, pointer := m.pointer.onto program.length }
  | restart : Stroke m [.tape .clear] m.reset

/-- Strokes one after the other. -/
inductive Strokes : Machine → List Event → Machine → Prop
  | none (m : Machine) : Strokes m [] m
  | next {m n k : Machine} {es fs : List Event} (first : Stroke m es n) (rest : Strokes n fs k) : Strokes m (es ++ fs) k

variable {m n k : Machine} {es fs : List Event}

theorem Stroke.strokes (h : m.Stroke es n) : m.Strokes es n := by
  rw [← List.append_nil es]
  exact .next h (.none n)

theorem Strokes.append (h : m.Strokes es n) (h' : n.Strokes fs k) : m.Strokes (es ++ fs) k := by
  induction h with
  | none => exact h'
  | next first _ ih =>
    rw [List.append_assoc]
    exact .next first (ih h')

end Machine

open Rewind.Machine

/-- What the action does, it does by strokes. -/
def Action.ByStrokes {α : Type} (x : Action α) : Prop := ∀ m : Machine, m.Strokes (x m).events (x m).machine

namespace Action.ByStrokes

variable {α β : Type}

theorem pure (a : α) : ByStrokes (Pure.pure a : Action α) := fun m => .none m

theorem keeps {x : Action α} (h : ByStrokes x) (m : Machine) : Keeps (fun es n => m.Strokes es n) x :=
  fun _ n before => before.append (h n)

theorem bind {x : Action α} {f : α → Action β} (hx : ByStrokes x) (hf : ∀ a, ByStrokes (f a)) :
    ByStrokes (x >>= f) :=
  fun m => ((hx.keeps m).bind fun a => (hf a).keeps m) [] m (.none m)

theorem get_bind {f : Machine → Action α} (hf : ∀ m, ByStrokes (f m)) : ByStrokes (get >>= f) := by
  intro m
  rw [bind_apply, get_apply, Outcome.andThen_ok, List.nil_append]
  exact hf m m

/-- An action that always does one stroke. -/
theorem of_stroke {x : Action α} (h : ∀ m : Machine, m.Stroke (x m).events (x m).machine) : ByStrokes x :=
  fun m => (h m).strokes

end Action.ByStrokes

namespace Machine

open Rewind.Action.ByStrokes

theorem strokes_movedTo (fault : Fault) (m : Machine) {p? : Option (Pointer Nat)}
    (inside : ∀ p, p? = some p → m.WellFormed → p.InRange m.program.length) :
    m.Strokes (m.movedTo fault p?).events (m.movedTo fault p?).machine := by
  cases p? with
  | none => exact .none m
  | some p => exact (Stroke.point (inside p rfl)).strokes

theorem advance_byStrokes : ByStrokes advance := fun m => by
  rw [advance_apply]
  exact strokes_movedTo _ m fun p hp _ => Pointer.inRange_next? hp

theorem retreat_byStrokes : ByStrokes retreat := fun m => by
  rw [retreat_apply]
  exact strokes_movedTo _ m fun p hp wellFormed => Pointer.inRange_previous? wellFormed hp

theorem jump_byStrokes (index : Int) : ByStrokes (jump index) := fun m => by
  rw [jump_apply]
  split
  · refine (Stroke.point fun _ => ?_).strokes
    show index.toNat < m.program.length
    omega
  · exact .none m

theorem seekForward_byStrokes (symbol : String) : ByStrokes (seekForward symbol) := fun m => by
  rw [seekForward_apply]
  split
  · exact .none m
  · refine strokes_movedTo _ m fun p hp _ => ?_
    obtain ⟨i, hi, rfl⟩ := Option.map_eq_some_iff.mp hp
    exact Pointer.inRange_seekForward? hi

theorem seekBackward_byStrokes (symbol : String) : ByStrokes (seekBackward symbol) := fun m => by
  rw [seekBackward_apply]
  split
  · exact .none m
  · refine strokes_movedTo _ m fun p hp _ => ?_
    obtain ⟨i, hi, rfl⟩ := Option.map_eq_some_iff.mp hp
    exact Pointer.inRange_seekBackward? hi

theorem changeTape_byStrokes {change : Tape.Change} (kept : change ≠ .clear) : ByStrokes (changeTape change) :=
  fun m => by
    rw [changeTape_apply]
    cases h : m.tape.change? change with
    | none => exact .none m
    | some t => exact (Stroke.tape kept h).strokes

theorem unemit_byStrokes : ByStrokes unemit := fun m => by
  rw [unemit_apply]
  cases m.emitted with
  | nil => exact .none m
  | cons value rest => exact (Stroke.emitted rest).strokes

theorem supplyInput_byStrokes (data : List Int) : ByStrokes (supplyInput data) := fun m => by
  rw [supplyInput_apply]
  cases Cell.listOfInts? data with
  | none => exact .none m
  | some bytes => exact (Stroke.input _).strokes

theorem nextInput_byStrokes : ByStrokes nextInput := fun m => by
  rw [nextInput_apply]
  cases m.input with
  | nil => exact .none m
  | cons value rest => exact (Stroke.input rest).strokes

theorem inputPop_byStrokes : ByStrokes inputPop := fun m => by
  simp only [inputPop, bind_apply, get_apply, Outcome.andThen_ok, List.nil_append]
  cases m.input.getLast? with
  | none => exact .none m
  | some value => exact (Stroke.input _).strokes

theorem restoreCell_byStrokes : ByStrokes restoreCell := fun m => by
  rw [restoreCell_apply]
  cases m.overwritten with
  | nil => exact .none m
  | cons value rest => exact .next (.overwritten rest) (Stroke.tape (by simp) rfl).strokes

theorem load_byStrokes (program : List Item) : ByStrokes (load program) := of_stroke fun m => by
  rw [load_apply]
  exact .load program

end Machine

/-- Every effect goes by strokes. -/
theorem Action.ByStrokes.hereditary : Hereditary ByStrokes where
  pure := .pure
  bind := .bind
  fail _ := fun m => .none m
  inspect _ hf := .get_bind hf
  advance := Machine.advance_byStrokes
  retreat := Machine.retreat_byStrokes
  jump := Machine.jump_byStrokes
  seekForward := Machine.seekForward_byStrokes
  seekBackward := Machine.seekBackward_byStrokes
  readCell := fun m => .none m
  changeTape := Machine.changeTape_byStrokes
  emitByte _ := .of_stroke fun _ => .emitted _
  unemit := Machine.unemit_byStrokes
  outputClear := .of_stroke fun _ => .emitted _
  supplyInput := Machine.supplyInput_byStrokes
  nextInput := Machine.nextInput_byStrokes
  returnInput _ := .of_stroke fun _ => .input _
  inputPop := Machine.inputPop_byStrokes
  inputClear := .of_stroke fun _ => .input _
  saveCell := .of_stroke fun _ => .overwritten _
  restoreCell := Machine.restoreCell_byStrokes
  cellsClear := .of_stroke fun _ => .overwritten _
  load := Machine.load_byStrokes
  restart := .of_stroke fun _ => .restart

/-! ## Calls that stay -/

theorem Event.changes_loadEvents (n : Nat) (p : Pointer Nat) : changes (Machine.loadEvents n p) = [] := by
  unfold Machine.loadEvents
  cases p.stranded? n <;> rfl

namespace Command.TapeOnly

theorem nil : TapeOnly [] := by simp [TapeOnly]

theorem append {es fs : List Event} (h : TapeOnly es) (h' : TapeOnly fs) : TapeOnly (es ++ fs) := by
  intro e he
  rcases List.mem_append.mp he with he | he
  · exact h e he
  · exact h' e he

theorem not_clear {es : List Event} (h : TapeOnly es) : .clear ∉ Event.changes es := by
  intro hclear
  obtain ⟨e, he, hchange⟩ := List.mem_filterMap.mp hclear
  obtain ⟨change, rfl, hne⟩ := h e he
  exact hne (Option.some.inj hchange)

end Command.TapeOnly

/-- The action tells only of the cursor and of cells that are stored. -/
def Action.TellsTapeOnly {α : Type} (x : Action α) : Prop := ∀ m : Machine, Command.TapeOnly (x m).events

namespace Action.TellsTapeOnly

open Rewind.Command

variable {α β : Type}

/-- An action that tells nothing. -/
theorem of_silent {x : Action α} (h : ∀ m : Machine, (x m).events = []) : TellsTapeOnly x := fun m => by
  rw [h m]
  exact .nil

theorem keeps {x : Action α} (h : TellsTapeOnly x) : Keeps (fun es _ => TapeOnly es) x :=
  fun _ m before => before.append (h m)

theorem bind {x : Action α} {f : α → Action β} (hx : TellsTapeOnly x) (hf : ∀ a, TellsTapeOnly (f a)) :
    TellsTapeOnly (x >>= f) :=
  fun m => (hx.keeps.bind fun a => (hf a).keeps) [] m .nil

theorem movedTo_silent (fault : Fault) (m : Machine) (p? : Option (Pointer Nat)) :
    (m.movedTo fault p?).events = [] := by
  cases p? <;> rfl

theorem changeTape {change : Tape.Change} (kept : change ≠ .clear) : TellsTapeOnly (Machine.changeTape change) := by
  intro m
  rw [changeTape_apply]
  cases m.tape.change? change with
  | none => exact .nil
  | some t => simp [TapeOnly, kept]

theorem restoreCell : TellsTapeOnly Machine.restoreCell := by
  intro m
  rw [restoreCell_apply]
  cases m.overwritten with
  | nil => exact .nil
  | cons value rest => simp [TapeOnly]

/-- Only a new program and a new beginning tell of anything else. -/
theorem composable : Composable TellsTapeOnly where
  pure _ := .of_silent fun _ => rfl
  bind := .bind
  fail _ := .of_silent fun _ => rfl
  inspect _ hf m := hf m m
  advance := .of_silent fun m => by rw [advance_apply, movedTo_silent]
  retreat := .of_silent fun m => by rw [retreat_apply, movedTo_silent]
  jump _ := .of_silent fun m => by rw [jump_apply]; split <;> rfl
  seekForward _ := .of_silent fun m => by
    rw [seekForward_apply]
    split
    · rfl
    · exact movedTo_silent ..
  seekBackward _ := .of_silent fun m => by
    rw [seekBackward_apply]
    split
    · rfl
    · exact movedTo_silent ..
  readCell := .of_silent fun _ => rfl
  changeTape := .changeTape
  emitByte _ := .of_silent fun _ => rfl
  unemit := .of_silent fun m => by rw [unemit_apply]; cases m.emitted <;> rfl
  outputClear := .of_silent fun _ => rfl
  supplyInput data := .of_silent fun m => by rw [supplyInput_apply]; cases Cell.listOfInts? data <;> rfl
  nextInput := .of_silent fun m => by rw [nextInput_apply]; cases m.input <;> rfl
  returnInput _ := .of_silent fun _ => rfl
  inputPop := .of_silent fun m => by
    simp only [Machine.inputPop, bind_apply, get_apply, Outcome.andThen_ok, List.nil_append]
    cases m.input.getLast? <;> rfl
  inputClear := .of_silent fun _ => rfl
  saveCell := .of_silent fun _ => rfl
  restoreCell := .restoreCell
  cellsClear := .of_silent fun _ => rfl

end Action.TellsTapeOnly

/-- The program and the history are replaced by no stroke that tells only of the tape. -/
theorem Machine.Strokes.of_tapeOnly {m n : Machine} {es : List Event} (h : m.Strokes es n)
    (quiet : Command.TapeOnly es) : n.program = m.program ∧ n.history = m.history := by
  induction h with
  | none => exact ⟨rfl, rfl⟩
  | @next m n k es fs first _ ih =>
    obtain ⟨hprogram, hhistory⟩ := ih fun e he => quiet e (List.mem_append_right _ he)
    have hquiet : Command.TapeOnly es := fun e he => quiet e (List.mem_append_left _ he)
    rw [hprogram, hhistory]
    cases first with
    | point | tape | emitted | input | overwritten => exact ⟨rfl, rfl⟩
    | load program =>
      obtain ⟨change, hchange, -⟩ := hquiet (.loaded program.length) (by
        unfold loadEvents
        split <;> simp)
      cases hchange
    | restart =>
      obtain ⟨change, hchange, hne⟩ := hquiet (.tape .clear) (by simp)
      cases hchange
      exact absurd rfl hne

namespace Call

theorem tapeOnly_of_stays {call : Call} (stays : call.Stays) (m : Machine) : Command.TapeOnly (call.perform m).events :=
  TellsTapeOnly.composable.perform stays m

theorem perform_load (listing : Listing) (m : Machine) :
    (load listing).perform m =
      match listing.build with
      | .ok items =>
        ⟨.ok .nothing, { m with program := items, pointer := m.pointer.onto items.length },
          loadEvents items.length m.pointer⟩
      | .error fault => ⟨.error fault, m, []⟩ := by
  simp only [perform, bind_apply, ofExcept_apply]
  cases listing.build with
  | error fault => rfl
  | ok items =>
    simp only [Action.silently, bind_apply, load_apply, pure_apply, Outcome.andThen_ok, List.nil_append, List.append_nil]

/-- Of the calls only the new beginning clears the tape. -/
theorem not_clear {call : Call} (h : call ≠ .reset) (m : Machine) :
    .clear ∉ Event.changes (call.perform m).events := by
  rcases call.stays_or with stays | rfl | ⟨listing, rfl⟩
  · exact (tapeOnly_of_stays stays m).not_clear
  · exact absurd rfl h
  · rw [perform_load]
    cases listing.build with
    | error fault => simp
    | ok items => simp [Event.changes_loadEvents]

end Call

/-! ## What lasts -/

/-- A property of the events so far and the machine that strokes and the entries of the history keep. -/
structure Machine.Lasting (P : List Event → Machine → Prop) : Prop where
  stroke {es new : List Event} {m n : Machine} : m.Stroke new n → P es m → P (es ++ new) n
  /-- An instruction that was executed enters the history. -/
  executed {es : List Event} {m : Machine} (item : Item) :
    P es m → P (es ++ [.executed item.symbol m.pointer]) { m with history := item :: m.history }
  /-- An instruction that is to be undone leaves the history. -/
  consumed {es : List Event} {m : Machine} {item : Item} {rest : List Item} :
    m.history = item :: rest → P es m → P es { m with history := rest }
  undid {es : List Event} {m : Machine} (item : Item) : P es m → P (es ++ [.undid item.symbol m.pointer]) m

namespace Machine.Lasting

variable {P : List Event → Machine → Prop} (lasting : Lasting P)
include lasting

theorem strokes {es new : List Event} {m n : Machine} (h : m.Strokes new n) (hm : P es m) : P (es ++ new) n := by
  induction h generalizing es with
  | none => rwa [List.append_nil]
  | next first _ ih =>
    rw [← List.append_assoc]
    exact ih (lasting.stroke first hm)

theorem keeps {α : Type} {x : Action α} (h : ByStrokes x) : Keeps P x := fun _ m hm => lasting.strokes (h m) hm

theorem step : Keeps P step := by
  intro es m hm
  cases h : m.current? with
  | none =>
    rw [step_of_current?_eq_none h]
    exact ((lasting.keeps advance_byStrokes).bind fun _ => .pure none) es m hm
  | some item =>
    rw [step_of_current?_eq_some h]
    have hrecord : Keeps P (recordExecuted item) := fun _ _ => lasting.executed item
    exact ((lasting.keeps (ByStrokes.hereditary.itemForward item)).bind fun _ => hrecord) es m hm

theorem undo : Keeps P undo := by
  intro es m hm
  cases h : m.history with
  | nil =>
    rw [undo_of_history_eq_nil h]
    rwa [List.append_nil]
  | cons item rest =>
    rw [undo_of_history_eq_cons h]
    have hrecord : Keeps P (recordUndone item) := fun _ _ => lasting.undid item
    exact ((lasting.keeps (ByStrokes.hereditary.itemInverse item)).bind fun _ => hrecord) es _ (lasting.consumed h hm)

end Machine.Lasting

/-- What happens to a session in the hands of a caller, who makes requests and puts what he likes into the buffers. -/
inductive Session.Handled (s : Session) : List Event → Session → Prop
  | begin : Handled s [] s
  | request {es : List Event} {t : Session} {allowance : Nat} {request : Request} {response : Response}
    (before : Handled s es t) (performed : t.perform allowance request = some response) :
    Handled s (es ++ response.events) response.session
  | buffers {es : List Event} {t : Session} (before : Handled s es t) (emitted input overwritten : List Cell) :
    Handled s es
      { t with machine := { t.machine with emitted := emitted, input := input, overwritten := overwritten } }

/-- What lasts is kept whatever a caller does, whether it succeeds or fails. -/
theorem Session.Handled.lasting {P : List Event → Machine → Prop} (lasting : Machine.Lasting P) {s t : Session}
    {es : List Event} (handled : Handled s es t) (init : P [] s.machine) : P es t.machine := by
  induction handled with
  | begin => exact init
  | request _ performed ih =>
    exact perform_keeps performed lasting.step lasting.undo
      (fun call _ => lasting.keeps (ByStrokes.hereditary.perform call)) _ ih
  | @buffers es _ _ emitted input overwritten ih =>
    rw [← List.append_nil es]
    exact lasting.strokes (.next (.emitted emitted) (.next (.input input) (Stroke.overwritten overwritten).strokes)) ih

end Rewind
