import Rewind.Proofs.Endings

/-!
# Operations that fail

The operations of `Action.Primitive` do all of their work or nothing: when one of them fails, the machine is as it was
and nothing is told (`Action.Primitive.unchanged`). For a step this needs a command under the pointer, since custom
instructions keep what they did before they failed. `Machine.Hindered` lists the reasons for which a command cannot be
executed in any program, balanced or not (`Machine.step_eq_error_iff`). `Machine.primitives_atomic` says both.
-/

namespace Rewind

open Rewind.Action

/-- The operations that do all of their work or nothing. -/
inductive Action.Primitive : {α : Type} → Action α → Prop
  | step : Primitive Machine.step
  | advance : Primitive Machine.advance
  | retreat : Primitive Machine.retreat
  | jump (index : Int) : Primitive (Machine.jump index)
  | seekForward (symbol : String) : Primitive (Machine.seekForward symbol)
  | seekBackward (symbol : String) : Primitive (Machine.seekBackward symbol)
  | moveLeft : Primitive Machine.moveLeft
  | writeCell (value : Int) : Primitive (Machine.writeCell value)
  | transformCell (f : Cell → Except Fault Int) : Primitive (Machine.transformCell f)
  | supplyInput (data : List Int) : Primitive (Machine.supplyInput data)

namespace Machine

variable {m : Machine} {fault : Fault}

theorem movedTo_of_error {fault' : Fault} {p? : Option (Pointer Nat)}
    (h : (m.movedTo fault' p?).result = .error fault) : m.movedTo fault' p? = ⟨.error fault, m, []⟩ := by
  cases p? with
  | none =>
    obtain rfl := Except.error.inj h
    rfl
  | some p => cases h

theorem writeCell_of_error {value : Int} (h : (writeCell value m).result = .error fault) :
    writeCell value m = ⟨.error fault, m, []⟩ := by
  rw [writeCell_apply] at h ⊢
  cases hv : Cell.ofInt? value with
  | none =>
    rw [hv] at h
    obtain rfl := Except.error.inj h
    rfl
  | some c =>
    rw [hv] at h
    cases h

end Machine

open Rewind.Machine

/-- A primitive operation that fails changes nothing and tells nothing. -/
theorem Action.Primitive.unchanged {m : Machine} {fault : Fault} {α : Type} {x : Action α} (primitive : Primitive x)
    (wellFormed : m.WellFormed) (atCommand : m.AtCommand) (h : (x m).result = .error fault) :
    x m = ⟨.error fault, m, []⟩ := by
  cases primitive with
  | step => exact (step_stepped_of_atCommand wellFormed atCommand).of_error h
  | advance =>
    rw [advance_apply] at h ⊢
    exact movedTo_of_error h
  | retreat =>
    rw [retreat_apply] at h ⊢
    exact movedTo_of_error h
  | jump index =>
    rw [jump_apply] at h ⊢
    split
    · rename_i hin
      rw [if_pos hin] at h
      cases h
    · rename_i hout
      rw [if_neg hout] at h
      obtain rfl := Except.error.inj h
      rfl
  | seekForward symbol =>
    rw [seekForward_apply] at h ⊢
    split
    · rename_i hfinish
      rw [if_pos hfinish] at h
      obtain rfl := Except.error.inj h
      rfl
    · rename_i hinside
      rw [if_neg hinside] at h
      exact movedTo_of_error h
  | seekBackward symbol =>
    rw [seekBackward_apply] at h ⊢
    split
    · rename_i hstart
      rw [if_pos hstart] at h
      obtain rfl := Except.error.inj h
      rfl
    · rename_i hinside
      rw [if_neg hinside] at h
      exact movedTo_of_error h
  | moveLeft =>
    rw [moveLeft_apply] at h ⊢
    cases hleft : m.tape.moveLeft? with
    | none =>
      rw [hleft] at h
      obtain rfl := Except.error.inj h
      rfl
    | some t =>
      rw [hleft] at h
      cases h
  | writeCell value => exact writeCell_of_error h
  | transformCell f =>
    rw [transformCell_apply] at h ⊢
    cases hf : f m.tape.here with
    | error fault' =>
      rw [hf] at h
      obtain rfl := Except.error.inj h
      rfl
    | ok value =>
      rw [hf] at h
      exact writeCell_of_error h
  | supplyInput data =>
    rw [supplyInput_apply] at h ⊢
    cases hdata : Cell.listOfInts? data with
    | none =>
      rw [hdata] at h
      obtain rfl := Except.error.inj h
      rfl
    | some bytes =>
      rw [hdata] at h
      cases h

namespace Machine

variable {m : Machine} {fault : Fault}

/-- Why the machine cannot step, whatever its program. -/
inductive Hindered (m : Machine) : Fault → Prop
  | ended (finish : m.pointer = .finish) : Hindered m .pastEnd
  | firstCell (current : m.current? = some (.command .moveLeft)) (first : m.tape.cursor = 0) :
    Hindered m .tapeUnderflow
  | dry (current : m.current? = some (.command .accept)) (empty : m.input = []) : Hindered m .waiting
  /-- A loop is to be left whose end is missing. -/
  | unclosed {i : Nat} (on : m.pointer = .on i) (current : m.current? = some (.command .openLoop))
    (zero : m.tape.here = 0) (single : ∀ j, ¬Partners m.program i j) : Hindered m (.unmatched .opening i)
  /-- A loop is to be repeated whose beginning is missing. -/
  | unopened {i : Nat} (on : m.pointer = .on i) (current : m.current? = some (.command .closeLoop))
    (nonzero : m.tape.here ≠ 0) (single : ∀ j, ¬Partners m.program j i) : Hindered m (.unmatched .closing i)

theorem hindered_of_refuses {i : Nat} {c : Command} (on : m.pointer = .on i)
    (item : m.program[i]? = some (.command c)) (refuses : c.Refuses m i fault) : m.Hindered fault := by
  have hcurrent : m.current? = some (.command c) := current?_eq_some_iff.mpr ⟨i, on, item⟩
  cases refuses with
  | moveLeft first => exact .firstCell hcurrent (Tape.moveLeft?_eq_none_iff.mp first)
  | accept dry => exact .dry hcurrent dry
  | unpaired jumps missing =>
    cases c with
    | openLoop =>
      have hbracket := bracket?_of_current? (b := .opening) on hcurrent rfl
      obtain ⟨rfl, single⟩ := (matchingBracket_eq_error_iff hbracket).mp missing
      exact .unclosed on hcurrent jumps single
    | closeLoop =>
      have hbracket := bracket?_of_current? (b := .closing) on hcurrent rfl
      obtain ⟨rfl, single⟩ := (matchingBracket_eq_error_iff hbracket).mp missing
      exact .unopened on hcurrent jumps single
    | _ => exact jumps.elim

/-- What hinders a machine on an instruction is the reason for which its command is refused. -/
theorem Hindered.refuses (hindered : m.Hindered fault) (inside : m.pointer ≠ .finish) :
    ∃ i c, m.pointer = .on i ∧ m.program[i]? = some (.command c) ∧ c.Refuses m i fault := by
  cases hindered with
  | ended finish => exact absurd finish inside
  | firstCell current first =>
    obtain ⟨i, on, item⟩ := current?_eq_some_iff.mp current
    exact ⟨i, _, on, item, .moveLeft (Tape.moveLeft?_eq_none_iff.mpr first)⟩
  | dry current empty =>
    obtain ⟨i, on, item⟩ := current?_eq_some_iff.mp current
    exact ⟨i, _, on, item, .accept empty⟩
  | @unclosed i on current zero single =>
    obtain ⟨k, hk, item⟩ := current?_eq_some_iff.mp current
    obtain rfl : i = k := Pointer.on.inj (on.symm.trans hk)
    have hbracket := bracket?_of_current? (b := .opening) on current rfl
    exact ⟨i, _, on, item, .unpaired zero ((matchingBracket_eq_error_iff hbracket).mpr ⟨rfl, single⟩)⟩
  | @unopened i on current nonzero single =>
    obtain ⟨k, hk, item⟩ := current?_eq_some_iff.mp current
    obtain rfl : i = k := Pointer.on.inj (on.symm.trans hk)
    have hbracket := bracket?_of_current? (b := .closing) on current rfl
    exact ⟨i, _, on, item, .unpaired nonzero ((matchingBracket_eq_error_iff hbracket).mpr ⟨rfl, single⟩)⟩

/-- Where there is a command, a step fails exactly when the machine is hindered, and with that fault. -/
theorem step_eq_error_iff (wellFormed : m.WellFormed) (atCommand : m.AtCommand) :
    (step m).result = .error fault ↔ m.Hindered fault := by
  constructor
  · intro h
    have stepped := step_stepped_of_atCommand wellFormed atCommand
    generalize step m = o at stepped h
    cases stepped with
    | entered | executed => cases h
    | ended finish =>
      obtain rfl := Except.error.inj h
      exact .ended finish
    | refused on item refuses =>
      obtain rfl := Except.error.inj h
      exact hindered_of_refuses on item refuses
  · intro hindered
    by_cases hfinish : m.pointer = .finish
    · -- Past the end there is no instruction that could be refused.
      cases hindered with
      | ended => rw [step_of_finish hfinish]
      | firstCell current | dry current | unclosed _ current | unopened _ current =>
        obtain ⟨i, on, -⟩ := current?_eq_some_iff.mp current
        cases on.symm.trans hfinish
    · obtain ⟨i, c, on, item, refuses⟩ := hindered.refuses hfinish
      rw [step_of_refuses on item refuses]

/--
In any program, where there is a command or none: a primitive operation that fails leaves the machine as it was, and a
step fails exactly past the end, left of the first cell, without input, or at a bracket that it has to jump from and
that has no partner.
-/
theorem primitives_atomic (wellFormed : m.WellFormed) (atCommand : m.AtCommand) :
    (∀ {α : Type} (x : Action α) (fault : Fault), Primitive x → (x m).result = .error fault →
        x m = ⟨.error fault, m, []⟩) ∧
      ∀ fault, (step m).result = .error fault ↔ m.Hindered fault :=
  ⟨fun _ _ primitive h => primitive.unchanged wellFormed atCommand h,
    fun _ => step_eq_error_iff wellFormed atCommand⟩

/-- Beside a custom instruction that looks like its partner, a closing bracket has none. -/
theorem primitives_atomic_lone_bracket :
    let m : Machine :=
      { start [.custom "[" [.moveRight, .fail "stop"] [], .command .closeLoop] [] with
        tape := ⟨[], 3, []⟩, pointer := .on 1 }
    m.WellFormed ∧ m.AtCommand ∧ m.Hindered (.unmatched .closing 1) ∧
      step m = ⟨.error (.unmatched .closing 1), m, []⟩ ∧
        transformCell CellMap.fail.apply m = ⟨.error (.raised "transform failed"), m, []⟩ := by
  intro m
  have wellFormed : m.WellFormed := by decide
  have atCommand : m.AtCommand := fun item hitem => ⟨.closeLoop, (Option.some.inj hitem).symm⟩
  obtain ⟨unchanged, fails⟩ := primitives_atomic wellFormed atCommand
  exact ⟨wellFormed, atCommand, (fails _).mp rfl, unchanged _ _ .step rfl, unchanged _ _ (.transformCell _) rfl⟩

end Machine

end Rewind
