import Rewind.Action

/-!
# Moving the instruction pointer

`Machine.advance`, `Machine.retreat`, `Machine.jump`, `Machine.seekForward` and `Machine.seekBackward` move the
pointer over the program of a machine and change nothing else; when they fail they change nothing at all. The
`apply` lemmas say so.
-/

namespace Rewind.Machine

open Rewind.Action

/-- Moves one position on. -/
def advance : Action Unit := do
  let m ← get
  match m.pointer.next? m.program.length with
  | some p => set { m with pointer := p }
  | none => fail .pastEnd

/-- Moves one position back. -/
def retreat : Action Unit := do
  let m ← get
  match m.pointer.previous? m.program.length with
  | some p => set { m with pointer := p }
  | none => fail .beforeStart

/-- The last of `n` indices. -/
def lastIndex? : Nat → Option Nat
  | 0 => none
  | n + 1 => some n

/-- Moves to the instruction at an index. -/
def jump (index : Int) : Action Unit := do
  let m ← get
  if 0 ≤ index ∧ index < m.program.length then
    set { m with pointer := .on index.toNat }
  else
    fail (.outOfRange index (lastIndex? m.program.length))

/-- Moves to the nearest instruction after the pointer that has a symbol. -/
def seekForward (symbol : String) : Action Unit := do
  let m ← get
  if m.pointer = .finish then
    fail .pastEnd
  else
    match m.pointer.seekForward? (fun item => item.symbol == symbol) m.program with
    | some i => set { m with pointer := .on i }
    | none => fail (.notFound symbol .next)

/-- Moves to the nearest instruction before the pointer that has a symbol. -/
def seekBackward (symbol : String) : Action Unit := do
  let m ← get
  if m.pointer = .start then
    fail .beforeStart
  else
    match m.pointer.seekBackward? (fun item => item.symbol == symbol) m.program with
    | some i => set { m with pointer := .on i }
    | none => fail (.notFound symbol .previous)

/-! ## What the moves do -/

/-- A move to a pointer, or the fault of a move that cannot be made. -/
def movedTo (fault : Fault) (m : Machine) : Option (Pointer Nat) → Outcome Unit
  | some p => ⟨.ok (), { m with pointer := p }, []⟩
  | none => ⟨.error fault, m, []⟩

theorem advance_apply (m : Machine) : advance m = m.movedTo .pastEnd (m.pointer.next? m.program.length) := by
  simp only [advance, bind_apply, get_apply, Outcome.andThen_ok, List.nil_append]
  cases m.pointer.next? m.program.length <;> rfl

theorem retreat_apply (m : Machine) :
    retreat m = m.movedTo .beforeStart (m.pointer.previous? m.program.length) := by
  simp only [retreat, bind_apply, get_apply, Outcome.andThen_ok, List.nil_append]
  cases m.pointer.previous? m.program.length <;> rfl

theorem jump_apply (index : Int) (m : Machine) :
    jump index m =
      if 0 ≤ index ∧ index < m.program.length then
        ⟨.ok (), { m with pointer := .on index.toNat }, []⟩
      else
        ⟨.error (.outOfRange index (lastIndex? m.program.length)), m, []⟩ := by
  simp only [jump, bind_apply, get_apply, Outcome.andThen_ok, List.nil_append]
  split <;> rfl

theorem seekForward_apply (symbol : String) (m : Machine) :
    seekForward symbol m =
      if m.pointer = .finish then
        ⟨.error .pastEnd, m, []⟩
      else
        m.movedTo (.notFound symbol .next)
          ((m.pointer.seekForward? (fun item => item.symbol == symbol) m.program).map .on) := by
  simp only [seekForward, bind_apply, get_apply, Outcome.andThen_ok, List.nil_append]
  split
  · rfl
  · cases m.pointer.seekForward? (fun item => item.symbol == symbol) m.program <;> rfl

theorem seekBackward_apply (symbol : String) (m : Machine) :
    seekBackward symbol m =
      if m.pointer = .start then
        ⟨.error .beforeStart, m, []⟩
      else
        m.movedTo (.notFound symbol .previous)
          ((m.pointer.seekBackward? (fun item => item.symbol == symbol) m.program).map .on) := by
  simp only [seekBackward, bind_apply, get_apply, Outcome.andThen_ok, List.nil_append]
  split
  · rfl
  · cases m.pointer.seekBackward? (fun item => item.symbol == symbol) m.program <;> rfl

end Rewind.Machine
