import Rewind.Proofs.FailedUndo
import Rewind.Proofs.Failures

/-!
# Machines stay sound

Every stroke keeps the pointer at a position of the program (`Machine.wellFormed_lasting`). So whatever a session does,
with whatever custom instructions and failures half way, its machine stays sound (`Machine.Sound`), also in the midst of
an instruction (`Machine.Midst`). On a sound machine reading and writing the cell, looking up the current instruction
and finding the partner of a bracket for a loop command never ask for a position that is not there
(`Machine.InBounds`). `Session.Handled.sound` says all this of whatever a caller does.
-/

namespace Rewind

open Rewind.Action

/-- What goes wrong in work that goes on after success went wrong before or after it. -/
theorem Outcome.raises_andThen {α β : Type} {o : Outcome α} {f : α → Action β} {kind : Kind}
    (h : (o.andThen f).Raises kind) : o.Raises kind ∨ ∃ a, o.result = .ok a ∧ (f a o.machine).Raises kind := by
  obtain ⟨fault, hfault, hkind⟩ := h
  rcases result_andThen_eq_error_iff.mp hfault with hfirst | ⟨a, ha, hnext⟩
  · exact Or.inl ⟨fault, hfirst, hkind⟩
  · exact Or.inr ⟨a, ha, fault, hnext, hkind⟩

namespace Machine

variable {m : Machine} {kind : Kind}

/-- The tape has a cell under the cursor, all that is stored are bytes, and the pointer is a position of the program. -/
structure Sound (m : Machine) : Prop where
  nonempty : m.tape.cells ≠ []
  cursor_lt : m.tape.cursor < m.tape.cells.length
  bytes : ∀ c ∈ m.tape.cells ++ m.output ++ m.input ++ m.overwritten, 0 ≤ c.value ∧ c.value ≤ 255
  position : m.pointer = .start ∨ m.pointer = .finish ∨ ∃ i, m.pointer = .on i ∧ i < m.program.length

/-- Cursors and bytes are so by their types; the pointer is what has to be kept. -/
theorem sound_iff : m.Sound ↔ m.WellFormed := by
  constructor
  · intro h
    rcases h.position with hp | hp | ⟨i, hp, hi⟩
    · rw [WellFormed, hp]
      trivial
    · rw [WellFormed, hp]
      trivial
    · rw [WellFormed, hp]
      exact hi
  · intro h
    refine ⟨?_, m.tape.cursor_lt_length, fun c _ => ⟨c.value_nonneg, Int.lt_add_one_iff.mp c.value_lt⟩, ?_⟩
    · exact List.ne_nil_of_length_pos (Nat.zero_lt_of_lt m.tape.cursor_lt_length)
    · rw [WellFormed] at h
      cases hp : m.pointer with
      | start => exact Or.inl rfl
      | finish => exact Or.inr (Or.inl rfl)
      | on i =>
        rw [hp] at h
        exact Or.inr (Or.inr ⟨i, rfl, h⟩)

/-- No stroke leads the pointer out of the program. -/
theorem wellFormed_lasting : Lasting fun _ m => m.WellFormed where
  stroke h hm := by
    cases h with
    | point inside => exact inside hm
    | load program => exact Pointer.inRange_onto _ _
    | restart => exact wellFormed_start _ _
    | tape | emitted | input | overwritten => exact hm
  executed _ hm := hm
  consumed _ hm := hm
  undid _ hm := hm

/-! ## Loop commands -/

theorem movedTo_raises {fault : Fault} {p? : Option (Pointer Nat)} (h : (m.movedTo fault p?).Raises kind) :
    kind = fault.report.kind := by
  obtain ⟨fault', hfault, rfl⟩ := h
  cases p? with
  | none => rw [← Except.error.inj hfault]
  | some p => cases hfault

theorem advance_raises (h : (advance m).Raises kind) : kind = .exhausted := by
  rw [advance_apply] at h
  exact movedTo_raises h

theorem retreat_raises (h : (retreat m).Raises kind) : kind = .exhausted := by
  rw [retreat_apply] at h
  exact movedTo_raises h

/-- A loop command fails only at the end of the program, off the program, or at a bracket without partner. -/
theorem forward_loop_raises (wellFormed : m.WellFormed) {c : Command} {b : Bracket} (hb : c.bracket? = some b)
    (h : (c.forward m).Raises kind) : kind = .exhausted ∨ kind = .noPosition ∨ kind = .badProgram := by
  have worked := Command.work_worked wellFormed c
  rw [Command.forward_eq, bind_apply] at h
  generalize c.work m = o at worked h
  cases worked with
  | done | jumped =>
    rcases Outcome.raises_andThen h with ⟨fault, hfault, -⟩ | ⟨-, -, hadvance⟩
    · cases hfault
    · exact Or.inl (advance_raises hadvance)
  | balked balks =>
    obtain ⟨fault, hfault, rfl⟩ := h
    obtain rfl := Except.error.inj hfault
    cases balks with
    | firstCell | dry => cases hb
    | unpaired _ on single =>
      rw [WellFormed, on] at wellFormed
      obtain ⟨_, rfl⟩ := unmatched_of_matchingBracket wellFormed single
      exact Or.inr (Or.inr rfl)
    | nowhere => exact Or.inr (Or.inl rfl)

/-- What undoes a loop command fails at the beginning of the program instead of the end, and never off the program. -/
theorem inverse_loop_raises {c : Command} {b : Bracket} (hb : c.bracket? = some b) (h : (c.inverse m).Raises kind) :
    kind = .exhausted ∨ kind = .badProgram := by
  rw [Command.inverse_eq, Command.revert_of_bracket hb] at h
  rcases Outcome.raises_andThen h with hretreat | ⟨-, -, fault, hjump, rfl⟩
  · exact Or.inl (retreat_raises hretreat)
  · obtain ⟨i, -, -, -, rfl⟩ := Command.single_of_jumpFrom hjump
    exact Or.inr rfl

/-! ## Positions that are there -/

/-- Nothing that goes by the cursor or the pointer asks for a position that is not there. -/
structure InBounds (m : Machine) : Prop where
  read : ∃ c, readCell m = ⟨.ok c, m, []⟩ ∧ m.tape.cells[m.tape.cursor]? = some c
  write {v : Int} (nonneg : 0 ≤ v) (le : v ≤ 255) : (writeCell v m).Succeeds
  current {i : Nat} (on : m.pointer = .on i) : ∃ item, m.current? = some item ∧ m.program[i]? = some item
  /-- The partner of a bracket is sought from the pointer. -/
  matching {i : Nat} (on : m.pointer = .on i) {fault : Fault} (failed : matchingBracket m.program i = .error fault) :
    fault.report.kind ≠ .badPosition
  forward {c : Command} {b : Bracket} (loop : c.bracket? = some b) : ¬(c.forward m).Raises .badPosition
  inverse {c : Command} {b : Bracket} (loop : c.bracket? = some b) : ¬(c.inverse m).Raises .badPosition

theorem WellFormed.inBounds (wellFormed : m.WellFormed) : m.InBounds where
  read := ⟨m.tape.here, rfl, m.tape.getElem?_cells_cursor⟩
  write {v} nonneg le := by
    rw [writeCell_apply]
    cases h : Cell.ofInt? v with
    | some c => exact ⟨(), rfl⟩
    | none =>
      rcases Cell.ofInt?_eq_none_iff.mp h with hneg | hlarge <;> omega
  current {i} on := by
    have hi : i < m.program.length := by rwa [WellFormed, on] at wellFormed
    have hitem := List.getElem?_eq_getElem hi
    exact ⟨_, current?_eq_some_iff.mpr ⟨i, on, hitem⟩, hitem⟩
  matching {i} on {fault} failed := by
    have hi : i < m.program.length := by rwa [WellFormed, on] at wellFormed
    obtain ⟨b, rfl⟩ := unmatched_of_matchingBracket hi failed
    intro hkind
    cases hkind
  forward loop h := by
    rcases forward_loop_raises wellFormed loop h with hkind | hkind | hkind <;> cases hkind
  inverse loop h := by
    rcases inverse_loop_raises loop h with hkind | hkind <;> cases hkind

/-- What the machine is, or becomes in the midst of executing or undoing a custom instruction. -/
inductive Midst (m : Machine) : Machine → Prop
  | executing (calls : List Call) : Midst m (Call.performAll calls m).machine
  | undoing {item : Item} {rest : List Item} (newest : m.history = item :: rest) (calls : List Call) :
    Midst m (Call.performAll calls { m with history := rest }).machine

theorem Midst.wellFormed {n : Machine} (midst : m.Midst n) (wellFormed : m.WellFormed) : n.WellFormed := by
  cases midst with
  | executing calls => exact wellFormed_lasting.keeps (ByStrokes.hereditary.performAll calls) [] m wellFormed
  | undoing newest calls => exact wellFormed_lasting.keeps (ByStrokes.hereditary.performAll calls) [] _ wellFormed

end Machine

/--
Whatever has happened to a session on any program, its machine is sound, and so is what it becomes in the midst of an
instruction; and there nothing is asked for at a position that is not there.
-/
theorem Session.Handled.sound {program : List Item} {input : List Cell} {events : List Event} {s : Session}
    (handled : Handled ⟨.start program input, []⟩ events s) {m : Machine} (midst : s.machine.Midst m) :
    m.Sound ∧ m.InBounds := by
  have wellFormed : s.machine.WellFormed := handled.lasting Machine.wellFormed_lasting (Machine.wellFormed_start _ _)
  have hm := midst.wellFormed wellFormed
  exact ⟨Machine.sound_iff.mpr hm, hm.inBounds⟩

/-- After the output was changed, an instruction loads a shorter program, goes back into it and fails there. -/
theorem Session.Handled.sound_shortened :
    ∃ events s, Handled ⟨.start [.command .closeLoop,
        .custom "swap" [.load (.source "+"), .inverse "[", .fail "stop"] []] [], []⟩ events s ∧
      s.machine.pointer = .on 0 ∧ s.machine.program.length = 1 ∧ s.machine.output = [7] ∧
      s.machine.Sound ∧ s.machine.InBounds := by
  have inside : Handled ⟨.start [.command .closeLoop,
      .custom "swap" [.load (.source "+"), .inverse "[", .fail "stop"] []] [], []⟩ _ _ :=
    .request (.request .begin (rfl : perform 0 _ .step = some _)) (rfl : perform 0 _ .step = some _)
  have failed := (inside.buffers [7] [] []).request (rfl : perform 0 _ .step = some _)
  exact ⟨_, _, failed, rfl, rfl, rfl, sound failed (.executing [])⟩

end Rewind
