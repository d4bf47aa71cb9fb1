import Mathlib.Algebra.BigOperators.Group.List.Basic
import Mathlib.Data.Int.ModEq
import Rewind.Proofs.Redoing

/-!
# The history accounts for the machine

`Machine.Accounted given m` says how the history of `m` accounts for its cursor, its buffers and, modulo 256, for the
sum of all bytes, when `given` is all the input that there was. A command changes each of these by what its own entry
counts (`Command.Works.cursor_eq`, …), hence a run from the start is accounted for (`accounted_of_reaches`). Undos need
no proof of their own, since they stay on the way of such a run; what new input changes is the run (`Reaches.supply`).
`Session.Course.accounted` says so of whatever a session has come to.
-/

namespace Rewind

open Rewind.Action

/-! ## Sums of bytes -/

namespace Cell

/-- The sum of some bytes. -/
def total (cells : List Cell) : Int := (cells.map value).sum

@[simp] theorem total_nil : total [] = 0 := rfl

@[simp] theorem total_cons (c : Cell) (cells : List Cell) : total (c :: cells) = c.value + total cells := rfl

@[simp] theorem total_append (cells more : List Cell) : total (cells ++ more) = total cells + total more := by
  simp [total]

@[simp] theorem total_replicate_zero (k : Nat) : total (List.replicate k 0) = 0 := by
  simp [total, value]

theorem value_add_one (c : Cell) : value (c + 1) ≡ value c + 1 [ZMOD 256] := by
  simp [value, UInt8.toNat_add, Int.ModEq]

theorem value_sub_one (c : Cell) : value (c - 1) ≡ value c - 1 [ZMOD 256] := by
  simp only [value, UInt8.toNat_sub, Int.ModEq]
  have := UInt8.toNat_lt c
  simp
  omega

end Cell

namespace Tape

theorem total_cells (t : Tape) :
    Cell.total t.cells = Cell.total t.left.reverse + t.here.value + Cell.total t.right := by
  simp [cells, add_assoc]

theorem total_moveRight (t : Tape) : Cell.total t.moveRight.cells = Cell.total t.cells := by
  rw [cells_right]
  split <;> simp [Cell.value]

theorem total_write (value : Cell) (t : Tape) :
    Cell.total (t.write value).cells = Cell.total t.cells - t.here.value + value.value := by
  rw [total_cells, total_cells]
  simp only [write]
  omega

end Tape

/-! ## What a command changes -/

namespace Command

/-- How often a command is among some items. -/
def countIn (c : Command) (items : List Item) : Nat :=
  items.countP fun
    | .command d => d = c
    | .custom .. => false

@[simp] theorem countIn_nil (c : Command) : c.countIn [] = 0 := rfl

theorem countIn_cons (c d : Command) (items : List Item) :
    c.countIn (.command d :: items) = c.countIn items + if d = c then 1 else 0 := by
  simp [countIn, List.countP_cons]

@[simp] theorem countIn_reverse (c : Command) (items : List Item) : c.countIn items.reverse = c.countIn items :=
  List.countP_reverse

variable {m w : Machine} {c : Command} {es : List Event}

theorem Works.cursor_eq (works : Works m c w es) :
    w.tape.cursor + (if c = .moveLeft then 1 else 0) = m.tape.cursor + if c = .moveRight then 1 else 0 := by
  cases works with
  | moveRight => simp
  | moveLeft moved => simp [Tape.cursor_left moved]
  | increment | decrement | emit | accept | openLoop | closeLoop => simp

theorem Works.emitted_eq (works : Works m c w es) :
    w.emitted.length = m.emitted.length + if c = .emit then 1 else 0 := by
  cases works <;> simp

theorem Works.overwritten_eq (works : Works m c w es) :
    w.overwritten.length = m.overwritten.length + if c = .accept then 1 else 0 := by
  cases works <;> simp

theorem Works.input_eq (works : Works m c w es) :
    w.input.length + (if c = .accept then 1 else 0) = m.input.length := by
  cases works with
  | accept taken => simp [taken]
  | moveRight | moveLeft | increment | decrement | emit | openLoop | closeLoop => simp

/-- The byte that is read goes to the tape, and the one that it replaces to the saved cells. -/
theorem Works.total_eq (works : Works m c w es) :
    Cell.total w.tape.cells + Cell.total w.overwritten + Cell.total w.input ≡
      Cell.total m.tape.cells + Cell.total m.overwritten + Cell.total m.input +
        (if c = .increment then 1 else 0) - (if c = .decrement then 1 else 0) [ZMOD 256] := by
  cases works with
  | moveRight => simp [Tape.total_moveRight]
  | moveLeft moved => simp [Tape.cells_left moved]
  | increment =>
    have hvalue := Cell.value_add_one m.tape.here
    simp only [Tape.total_write, reduceCtorEq, if_true, if_false, Int.ModEq] at hvalue ⊢
    omega
  | decrement =>
    have hvalue := Cell.value_sub_one m.tape.here
    simp only [Tape.total_write, reduceCtorEq, if_true, if_false, Int.ModEq] at hvalue ⊢
    omega
  | accept taken =>
    simp only [Tape.total_write, taken, Cell.total_cons, reduceCtorEq, if_false, Int.ModEq]
    omega
  | emit | openLoop | closeLoop => simp

end Command

/-! ## Accounts -/

/-- The history accounts for the cursor, the buffers and the sum of all bytes, `given` being all the input. -/
structure Machine.Accounted (given : List Int) (m : Machine) : Prop where
  cursor : (m.tape.cursor : Int) = Command.moveRight.countIn m.history - Command.moveLeft.countIn m.history
  output : m.output.length = Command.emit.countIn m.history
  overwritten : m.overwritten.length = Command.accept.countIn m.history
  input : m.input.length + Command.accept.countIn m.history = given.length
  /-- At no time the cursor has been left of the first cell. -/
  never_left : ∀ part, part <+: m.history.reverse → Command.moveLeft.countIn part ≤ Command.moveRight.countIn part
  total : Cell.total m.tape.cells + Cell.total m.overwritten + Cell.total m.input ≡
    given.sum + Command.increment.countIn m.history - Command.decrement.countIn m.history [ZMOD 256]

namespace Machine

variable {m n : Machine} {given : List Int}

theorem accounted_primed (program : List Item) (staged given : List Cell) :
    (primed program staged given).Accounted (given.map Cell.value) where
  cursor := rfl
  output := rfl
  overwritten := rfl
  input := by simp [primed, fed, start]
  never_left part hpart := by
    rw [List.prefix_nil.mp hpart]
    exact Nat.le_refl 0
  total := by
    show 0 + 0 + Cell.total given ≡ Cell.total given + 0 - 0 [ZMOD 256]
    simp

/-- Only the length and the sum of the input count. -/
theorem Accounted.perm {other : List Int} (h : m.Accounted given) (perm : given.Perm other) : m.Accounted other where
  cursor := h.cursor
  output := h.output
  overwritten := h.overwritten
  input := h.input.trans perm.length_eq
  never_left := h.never_left
  total := by
    rw [← perm.sum_eq]
    exact h.total

/-- Trailing zero cells have no part in the accounts. -/
theorem Accounted.pad (h : m.Accounted given) (k : Nat) : (m.pad k).Accounted given where
  cursor := h.cursor
  output := h.output
  overwritten := h.overwritten
  input := h.input
  never_left := h.never_left
  total := by
    show Cell.total (m.tape.pad k).cells + _ + _ ≡ _ [ZMOD 256]
    rw [Tape.cells_pad, Cell.total_append, Cell.total_replicate_zero, add_zero]
    exact h.total

/-- An instruction that is executed is accounted for by its own entry. -/
theorem Accounted.works {c : Command} {w : Machine} {es : List Event} (h : m.Accounted given) (works : c.Works m w es)
    (p : Pointer Nat) : Accounted given { w with pointer := p, history := .command c :: m.history } := by
  have hcursor : (w.tape.cursor : Int) = Command.moveRight.countIn (.command c :: m.history) -
      Command.moveLeft.countIn (.command c :: m.history) := by
    have hold := h.cursor
    have hnew := works.cursor_eq
    rw [Command.countIn_cons, Command.countIn_cons]
    omega
  refine ⟨hcursor, ?_, ?_, ?_, ?_, ?_⟩
  · have hold := h.output
    have hnew := works.emitted_eq
    simp only [Machine.output, List.length_reverse, Command.countIn_cons] at hold hnew ⊢
    omega
  · have hold := h.overwritten
    have hnew := works.overwritten_eq
    simp only [Command.countIn_cons]
    omega
  · have hold := h.input
    have hnew := works.input_eq
    simp only [Command.countIn_cons]
    omega
  · intro part hpart
    rw [List.reverse_cons] at hpart
    rcases List.prefix_concat_iff.mp hpart with rfl | hpart
    · -- The whole history counts where the cursor is now.
      rw [← List.reverse_cons, Command.countIn_reverse, Command.countIn_reverse]
      omega
    · exact h.never_left part hpart
  · have hold := h.total
    have hnew := works.total_eq
    simp only [Command.countIn_cons, Int.ModEq, Nat.cast_add, Nat.cast_ite, Nat.cast_one, Nat.cast_zero] at hold hnew ⊢
    omega

theorem Accounted.step (regular : m.Regular) (h : m.Accounted given) : (step m).machine.Accounted given := by
  have stepped := step_stepped regular
  generalize Machine.step m = o at stepped
  cases stepped with
  | entered => exact ⟨h.cursor, h.output, h.overwritten, h.input, h.never_left, h.total⟩
  | executed _ _ works => exact h.works works _
  | ended | refused => exact h

theorem Accounted.repeats {items : List (Option Item)} (regular : m.Regular) (h : m.Accounted given)
    (run : Repeats Machine.step m items n) : n.Accounted given := by
  induction run with
  | none => exact h
  | once _ _ ih => exact ih regular.step (h.step regular)

variable {commands : List Command} {staged : List Cell}

/-- What a machine at the start reaches is accounted for by its input. -/
theorem accounted_of_reaches {given : List Cell}
    (reaches : (primed (commands.map .command) staged given).Reaches m) : m.Accounted (given.map Cell.value) := by
  obtain ⟨steps, f, k, run, rfl⟩ := reaches
  exact ((accounted_primed _ staged given).repeats (regular_primed commands staged given) run).pad k

/-- A machine with other pending input is reached by a start with other input behind what was read. -/
theorem Reaches.supply {given : List Cell} (reaches : (primed (commands.map .command) staged given).Reaches m) :
    ∃ read, given = read ++ m.input ∧
      ∀ rest, (primed (commands.map .command) staged (read ++ rest)).Reaches { m with input := rest } := by
  obtain ⟨steps, f, k, run, rfl⟩ := reaches
  have regular := regular_primed commands staged given
  obtain ⟨read, hread, -, hrun⟩ := feed_of_repeats regular run
  refine ⟨read, hread, fun rest => ⟨steps, f.fed staged rest, k, hrun staged rest, ?_⟩⟩
  have hstaged : f.staged = staged := repeats_staged regular run
  rw [← hstaged]
  rfl

end Machine

/-! ## Sessions -/

/-- The requests that execute and undo instructions and queue input. -/
def Request.Proceeds : Request → Prop
  | .step | .undo | .run _ | .call (.supplyInput _) => True
  | _ => False

namespace Exchange

/-- The integers that a request has put in front of the input. -/
def supply (x : Exchange) : List Int :=
  match x.request, x.response.reply with
  | .call (.supplyInput data), .answer (.ok _) => data
  | _, _ => []

/-- All that has been put in front of the input. -/
def supplied (exchanges : List Exchange) : List Int := exchanges.flatMap supply

theorem supplied_concat (exchanges : List Exchange) (x : Exchange) :
    supplied (exchanges ++ [x]) = supplied exchanges ++ x.supply := by
  simp [supplied]

end Exchange

namespace Session

variable {commands : List Command} {input : List Cell} {exchanges : List Exchange} {s : Session}

/-- Queued input comes before what is pending; integers that are no bytes are refused. -/
theorem supply_cases {allowance : Nat} {data : List Int} {response : Response}
    (performed : s.perform allowance (.call (.supplyInput data)) = some response) :
    (∃ bytes, data = bytes.map Cell.value ∧ Exchange.supply ⟨.call (.supplyInput data), response⟩ = data ∧
        response.session.machine = { s.machine with input := bytes ++ s.machine.input }) ∨
      Exchange.supply ⟨.call (.supplyInput data), response⟩ = [] ∧ response.session.machine = s.machine := by
  obtain rfl := Option.some.inj performed
  have hcall : (Call.supplyInput data).perform s.machine =
      (Machine.supplyInput data s.machine).andThen fun _ => pure .nothing := rfl
  rw [hcall, Machine.supplyInput_apply]
  cases hdata : Cell.listOfInts? data with
  | none => exact Or.inr ⟨rfl, rfl⟩
  | some bytes => exact Or.inl ⟨bytes, Cell.listOfInts?_eq_some_iff.mp hdata, rfl, rfl⟩

/-- Whatever a session has come to is reached with all the input that there was, some of it earlier than it came. -/
theorem Course.reached (course : Course ⟨.start (commands.map .command) input, []⟩ exchanges s)
    (proceeds : ∀ x ∈ exchanges, x.request.Proceeds) :
    ∃ given : List Cell, (given.map Cell.value).Perm (input.map Cell.value ++ Exchange.supplied exchanges) ∧
      (Machine.primed (commands.map .command) input given).Reaches s.machine := by
  induction course with
  | begin => exact ⟨input, by simp [Exchange.supplied], .refl _⟩
  | @next exchanges t allowance request response before performed ih =>
    obtain ⟨given, hperm, hreached⟩ := ih fun x hx => proceeds x (List.mem_append_left _ hx)
    have hproceeds : request.Proceeds := proceeds ⟨request, response⟩ (by simp)
    rw [Exchange.supplied_concat]
    by_cases hsupply : ∃ data, request = .call (.supplyInput data)
    · obtain ⟨data, rfl⟩ := hsupply
      rcases supply_cases performed with ⟨bytes, rfl, hdata, hmachine⟩ | ⟨hdata, hmachine⟩
      · obtain ⟨read, rfl, hrest⟩ := hreached.supply
        have hmore : (read ++ (bytes ++ t.machine.input)).Perm (read ++ t.machine.input ++ bytes) := by
          rw [List.append_assoc]
          exact List.perm_append_comm.append_left read
        refine ⟨read ++ (bytes ++ t.machine.input), ?_, ?_⟩
        · refine (hmore.map Cell.value).trans ?_
          rw [hdata, List.map_append, ← List.append_assoc]
          exact hperm.append_right _
        · rw [hmachine]
          exact hrest _
      · rw [hdata, hmachine, List.append_nil]
        exact ⟨given, hperm, hreached⟩
    · -- Every other request is made of steps and undos.
      have regular := Machine.regular_primed commands input given
      have hnone : Exchange.supply ⟨request, response⟩ = [] := by
        cases request with
        | call call => cases call <;> first | rfl | exact absurd ⟨_, rfl⟩ hsupply
        | _ => rfl
      rw [hnone, List.append_nil]
      refine ⟨given, hperm, perform_keeps (P := fun _ => (Machine.primed _ input given).Reaches) performed
        (fun _ _ h => h.step regular) (fun _ _ h => h.undo regular rfl) (fun call hcall => ?_) [] hreached⟩
      cases call with
      | supplyInput data => exact absurd ⟨data, hcall⟩ hsupply
      | _ => rw [hcall] at hproceeds; exact hproceeds.elim

/--
Whatever a session on a program of commands has come to, its history accounts for the cursor, the buffers and the sum of
all bytes, given what it began with and all that was put in front of the input.
-/
theorem Course.accounted (course : Course ⟨.start (commands.map .command) input, []⟩ exchanges s)
    (proceeds : ∀ x ∈ exchanges, x.request.Proceeds) :
    s.machine.Accounted (input.map Cell.value ++ Exchange.supplied exchanges) := by
  obtain ⟨given, hperm, hreached⟩ := course.reached proceeds
  exact (Machine.accounted_of_reaches hreached).perm hperm

/-- A sum that wraps round, a byte that is read twice over, and integers that are refused. -/
theorem Course.accounted_wrapping :
    ∃ exchanges s,
      Course ⟨.start ([.accept, .increment, .moveRight, .accept, .emit].map .command) [255], []⟩ exchanges s ∧
        exchanges.map Exchange.request =
          [.run none, .call (.supplyInput [300]), .call (.supplyInput [5]), .step, .undo, .call (.supplyInput [7]),
            .run none] ∧
        s.machine.tape.cells = [0, 7] ∧ s.machine.input = [5] ∧ Exchange.supplied exchanges = [5, 7] ∧
        s.machine.Accounted [255, 5, 7] := by
  have waiting :
      Course ⟨.start ([.accept, .increment, .moveRight, .accept, .emit].map .command) [255], []⟩ _ _ :=
    .next .begin (rfl : perform 5 _ (.run none) = some _)
  have undone := (((waiting.next (rfl : perform 0 _ (.call (.supplyInput [300])) = some _)).next
    (rfl : perform 0 _ (.call (.supplyInput [5])) = some _)).next (rfl : perform 0 _ .step = some _)).next
    (rfl : perform 0 _ .undo = some _)
  have course := (undone.next (rfl : perform 0 _ (.call (.supplyInput [7])) = some _)).next
    (rfl : perform 3 _ (.run none) = some _)
  exact ⟨_, _, course, rfl, rfl, rfl, rfl, course.accounted (by simp [Request.Proceeds])⟩

end Session

end Rewind
