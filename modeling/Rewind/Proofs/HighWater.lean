import Mathlib.Data.List.Induction
import Mathlib.Order.Bounds.Basic
import Rewind.Proofs.Clearing

/-!
# The length of the tape

A tape is as long as the cursor has been far: it has one cell more than the highest position of the cursor since it was
cleared.

- A change that does not clear the tape leaves it as long as it was or as the cursor now needs (`Tape.length_change`),
  and alters no cell but the one under the cursor (`Tape.cells_change`). Hence the length (`Tape.isGreatest_cursor`)
  and the cells that keep their values (`Tape.getD_after?`) in the course of any number of changes;
- the events of a session tell every change of its tape, and only a new beginning clears it
  (`Session.perform_cleared`), so that `Session.Handled.high_water` can say all this of whatever a caller does.
-/

namespace Rewind

namespace Tape

variable {cs : List Change} {c : Change} {t u : Tape}

/-! ## One change -/

/-- What a change does to the cells, unless it clears them. -/
inductive Altered (t : Tape) : Change → List Cell → Prop
  | left : Altered t .left t.cells
  | right (inside : t.cursor + 1 < t.cells.length) : Altered t .right t.cells
  /-- Only past the last cell there is a new one. -/
  | grown (last : t.cursor + 1 = t.cells.length) : Altered t .right (t.cells ++ [0])
  | stored (value : Cell) : Altered t (.write value) (t.cells.set t.cursor value)

theorem cells_change (kept : c ≠ .clear) (made : t.change? c = some u) : t.Altered c u.cells := by
  cases c with
  | right =>
    obtain rfl := Option.some.inj made
    rw [cells_right]
    have hcursor := t.cursor_lt_length
    split
    · rename_i last
      exact .grown last
    · exact .right (by omega)
  | left =>
    rw [cells_left made]
    exact .left
  | write value =>
    obtain rfl := Option.some.inj made
    rw [cells_write]
    exact .stored value
  | clear => exact absurd rfl kept

/-- The tape is as long as it was, or as long as the cursor needs. -/
theorem length_change (kept : c ≠ .clear) (made : t.change? c = some u) :
    u.cells.length = max t.cells.length (u.cursor + 1) := by
  have hcursor := u.cursor_lt_length
  have altered := cells_change kept made
  generalize hcells : u.cells = cells at altered hcursor
  cases altered with
  | left | right => omega
  | grown last =>
    obtain rfl := Option.some.inj made
    rw [cursor_right, List.length_append, List.length_singleton]
    omega
  | stored value =>
    rw [List.length_set] at hcursor ⊢
    omega

/-- Only the cell under the cursor can get another value, and cells that are not there yet count as zero. -/
theorem getD_change (kept : c ≠ .clear) (made : t.change? c = some u) {i : Nat}
    (other : ∀ value, c = .write value → t.cursor ≠ i) : u.cells[i]?.getD 0 = t.cells[i]?.getD 0 := by
  have altered := cells_change kept made
  generalize u.cells = cells at altered
  cases altered with
  | left | right => rfl
  | grown last =>
    rw [List.getElem?_append]
    split
    · rfl
    · rename_i hi
      rw [List.getElem?_eq_none (Nat.le_of_not_lt hi)]
      cases i - t.cells.length <;> rfl
  | stored value => rw [List.getElem?_set_ne (other value rfl)]

/-! ## Any number of changes -/

theorem passes_concat_iff {v : Tape} (h : t.after? (cs ++ [c]) = some u) :
    Passes (cs ++ [c]) t v ↔ v = u ∨ Passes cs t v := by
  constructor
  · rintro ⟨part, hpart, hv⟩
    rcases List.prefix_concat_iff.mp hpart with rfl | hpart
    · exact Or.inl (Option.some.inj (hv.symm.trans h))
    · exact Or.inr ⟨part, hpart, hv⟩
  · rintro (rfl | ⟨part, hpart, hv⟩)
    · exact ⟨_, List.prefix_refl _, h⟩
    · exact ⟨part, hpart.trans (List.prefix_append _ _), hv⟩

/-- The changes since the tape was cleared lead to the same tape, and none of them clears it. -/
theorem after?_recent (h : blank.after? cs = some t) : blank.after? (recent cs) = some t ∧ .clear ∉ recent cs := by
  induction cs using List.reverseRecOn generalizing t with
  | nil => exact ⟨h, by simp [recent]⟩
  | append_singleton cs c ih =>
    obtain ⟨u, hu, made⟩ := after?_concat_eq_some_iff.mp h
    obtain ⟨hrecent, hclear⟩ := ih hu
    rw [recent_concat]
    split
    · rename_i hc
      subst hc
      exact ⟨made, by simp⟩
    · rename_i hc
      refine ⟨after?_concat_eq_some_iff.mpr ⟨u, hrecent, made⟩, ?_⟩
      simpa [hclear] using Ne.symm hc

/-- On a tape that began blank the cursor has been on every cell, and nowhere else. -/
theorem isGreatest_cursor (h : blank.after? cs = some t) (kept : .clear ∉ cs) :
    ∃ top, IsGreatest {k | ∃ u, Passes cs blank u ∧ u.cursor = k} top ∧ t.cells.length = 1 + top := by
  induction cs using List.reverseRecOn generalizing t with
  | nil =>
    obtain rfl := Option.some.inj h
    refine ⟨0, ⟨⟨blank, ⟨[], List.prefix_refl [], rfl⟩, rfl⟩, ?_⟩, rfl⟩
    rintro k ⟨u, ⟨part, hpart, hu⟩, rfl⟩
    obtain rfl := List.prefix_nil.mp hpart
    obtain rfl := Option.some.inj hu
    exact Nat.le_refl 0
  | append_singleton cs c ih =>
    obtain ⟨u, hu, made⟩ := after?_concat_eq_some_iff.mp h
    simp only [List.mem_append, List.mem_singleton, not_or] at kept
    obtain ⟨top, ⟨⟨v, hv, hlast⟩, hgreatest⟩, hlength⟩ := ih hu kept.1
    have hmax := length_change (Ne.symm kept.2) made
    refine ⟨max top t.cursor, ⟨?_, ?_⟩, by omega⟩
    · -- The higher of the two is the new position, or the highest one before.
      rcases Nat.le_total top t.cursor with hle | hle
      · exact ⟨t, (passes_concat_iff h).mpr (Or.inl rfl), by omega⟩
      · exact ⟨v, (passes_concat_iff h).mpr (Or.inr hv), by omega⟩
    · rintro k ⟨w, hw, rfl⟩
      rcases (passes_concat_iff h).mp hw with rfl | hw
      · omega
      · have := hgreatest ⟨w, hw, rfl⟩
        omega

/-- The tape only grows, and a cell keeps its value if nothing is stored at its position. -/
theorem getD_after? (h : t.after? cs = some u) (kept : .clear ∉ cs) :
    t.cells.length ≤ u.cells.length ∧ ∀ i, ¬Stores cs t i → u.cells[i]?.getD 0 = t.cells[i]?.getD 0 := by
  induction cs using List.reverseRecOn generalizing u with
  | nil =>
    obtain rfl := Option.some.inj h
    exact ⟨Nat.le_refl _, fun i _ => rfl⟩
  | append_singleton cs c ih =>
    obtain ⟨v, hv, made⟩ := after?_concat_eq_some_iff.mp h
    simp only [List.mem_append, List.mem_singleton, not_or] at kept
    obtain ⟨hlength, hcells⟩ := ih hv kept.1
    have hmax := length_change (Ne.symm kept.2) made
    refine ⟨by omega, fun i hi => ?_⟩
    have hlast : u.cells[i]?.getD 0 = v.cells[i]?.getD 0 := by
      refine getD_change (Ne.symm kept.2) made fun value hvalue hcursor => hi ?_
      subst hvalue
      exact ⟨cs, value, v, List.prefix_refl _, hv, hcursor⟩
    rw [hlast]
    refine hcells i fun ⟨part, value, w, hpart, hw, hcursor⟩ => hi ?_
    exact ⟨part, value, w, hpart.trans (List.prefix_append _ _), hw, hcursor⟩

end Tape

/-! ## Sessions -/

namespace Session

variable {program : List Item} {input : List Cell} {events : List Event} {s : Session}

/--
Whatever is done to a session on any program, its events tell the course of the tape. At every moment, also in the midst
of an instruction that fails, the tape has one cell more than the highest position that the cursor has had since it was
cleared. A change other than clearing it alters the cell under the cursor or appends one zero cell, so that from then on
the tape never becomes shorter, and a cell keeps its value until something is stored under a cursor that is there.

Only a new beginning clears the tape. Whatever is asked for, steps, undos and runs included, the tapes that are cleared
are those of the machines that a call puts back to their beginning meanwhile; where there are none, the tape has not
become shorter and the cells keep their values.
-/
theorem Handled.high_water (handled : Handled ⟨.start program input, []⟩ events s) :
    Tape.blank.after? (Event.changes events) = some s.machine.tape ∧
      (∀ part, part <+: Event.changes events → ∃ u top, Tape.blank.after? part = some u ∧
        IsGreatest {k | ∃ v, Tape.Passes (Tape.recent part) .blank v ∧ v.cursor = k} top ∧
          u.cells.length = 1 + top) ∧
      (∀ part c, part ++ [c] <+: Event.changes events → c ≠ .clear → ∃ u v, Tape.blank.after? part = some u ∧
        Tape.blank.after? (part ++ [c]) = some v ∧ u.Altered c v.cells) ∧
      (∀ later t, Handled s later t → .clear ∉ Event.changes later →
        s.machine.tape.cells.length ≤ t.machine.tape.cells.length ∧
          ∀ i, ¬Tape.Stores (Event.changes later) s.machine.tape i →
            t.machine.tape.cells[i]?.getD 0 = s.machine.tape.cells[i]?.getD 0) ∧
      (∀ (t : Session) (allowance : Nat) (request : Request) (response : Response),
        t.perform allowance request = some response →
          t.machine.tape.cleared (Event.changes response.events) =
              (request.restarts allowance t.machine).map Machine.tape ∧
            (request.restarts allowance t.machine = [] →
              t.machine.tape.cells.length ≤ response.session.machine.tape.cells.length ∧
                ∀ i, ¬Tape.Stores (Event.changes response.events) t.machine.tape i →
                  response.session.machine.tape.cells[i]?.getD 0 = t.machine.tape.cells[i]?.getD 0)) ∧
      ∀ (call : Call) (m : Machine), call ≠ .reset → .clear ∉ Event.changes (call.perform m).events := by
  have told : Tape.blank.after? (Event.changes events) = some s.machine.tape :=
    handled.lasting (Machine.told_lasting _) rfl
  refine ⟨told, fun part hpart => ?_, fun part c hpart kept => ?_,
    fun later t after kept => Tape.getD_after? (after.lasting (Machine.told_lasting _) rfl) kept,
    fun t allowance request response performed => ?_, fun call m h => Call.not_clear h m⟩
  · obtain ⟨u, hu⟩ := Tape.exists_after?_of_prefix told hpart
    obtain ⟨hrecent, hclear⟩ := Tape.after?_recent hu
    obtain ⟨top, hgreatest, hlength⟩ := Tape.isGreatest_cursor hrecent hclear
    exact ⟨u, top, hu, hgreatest, hlength⟩
  · obtain ⟨v, hv⟩ := Tape.exists_after?_of_prefix told hpart
    obtain ⟨u, hu, made⟩ := Tape.after?_concat_eq_some_iff.mp hv
    exact ⟨u, v, hu, hv, Tape.cells_change kept made⟩
  · have after : t.machine.tape.after? (Event.changes response.events) = some response.session.machine.tape :=
      (Handled.begin.request performed).lasting (Machine.told_lasting _) rfl
    have cleared := perform_cleared performed
    refine ⟨cleared, fun hnone => Tape.getD_after? after ((Tape.cleared_eq_nil_iff after).mp ?_)⟩
    rw [cleared, hnone, List.map_nil]

/--
An instruction has been on the third cell. Undoing it starts over and then fails half way; from then on the third cell
no longer counts.
-/
theorem Handled.high_water_failing :
    ∃ events t response u,
      Handled
          ⟨.start [.custom "far" [.moveRight, .moveRight, .moveLeft] [.moveLeft, .reset, .moveRight, .fail "stop"]] [],
            []⟩ events t ∧
        t.perform 0 .undo = some response ∧ response.session.machine.tape.cells = [0, 0] ∧
        Event.changes (events ++ response.events) = [.right, .right, .left, .left, .clear, .right] ∧
        Tape.blank.after? [.right, .right, .left] = some u ∧ u.cells = [0, 0, 0] ∧ u.cursor = 1 ∧
        IsGreatest {k | ∃ v, Tape.Passes [.right, .right, .left] .blank v ∧ v.cursor = k} 2 ∧
        IsGreatest {k | ∃ v, Tape.Passes [.right] .blank v ∧ v.cursor = k} 1 ∧
        (t.machine.tape.cleared (Event.changes response.events)).map Tape.cells = [[0, 0, 0]] ∧
        t.machine.tape.cleared (Event.changes response.events) =
          (Request.undo.restarts 0 t.machine).map Machine.tape := by
  have executed : Handled
      ⟨.start [.custom "far" [.moveRight, .moveRight, .moveLeft] [.moveLeft, .reset, .moveRight, .fail "stop"]] [], []⟩
      _ _ :=
    (Handled.begin.request (rfl : perform 0 _ .step = some _)).request (rfl : perform 0 _ .step = some _)
  have undone := executed.request (rfl : perform 0 _ .undo = some _)
  obtain ⟨-, high, -, -, clears, -⟩ := high_water undone
  obtain ⟨u, top, hu, hgreatest, htop⟩ := high [.right, .right, .left] ⟨[.left, .clear, .right], rfl⟩
  obtain ⟨u', top', hu', hgreatest', htop'⟩ := high _ (List.prefix_refl _)
  obtain rfl := Option.some.inj hu
  obtain rfl := Option.some.inj hu'
  obtain rfl : 2 = top := Nat.add_left_cancel htop
  obtain rfl : 1 = top' := Nat.add_left_cancel htop'
  obtain ⟨cleared, -⟩ := clears _ 0 .undo _ rfl
  exact ⟨_, _, _, _, executed, rfl, rfl, rfl, rfl, rfl, rfl, hgreatest, hgreatest', rfl, cleared⟩

end Session

end Rewind
