import Rewind.Fault

/-!
# Instruction pointers

A pointer is before the first instruction, on an instruction, or past the last one. Over a program of `n`
instructions that makes `n + 2` positions in a row.

- `next?` and `previous?` walk one position along that row and `seekForward?`, `seekBackward?` to the nearest item
  of some kind, strictly after or before the pointer;
- `InRange n` says that a pointer is one of the positions over `n` instructions, and every walk stays there
  (`inRange_next?`, `inRange_previous?`, `inRange_seekForward?`, `inRange_seekBackward?`).
-/

namespace Rewind

/-- A place in a program. -/
inductive Pointer (ι : Type)
  /-- Before the first instruction. -/
  | start
  /-- On the instruction at an index. -/
  | on (index : ι)
  /-- Past the last instruction. -/
  | finish
  deriving DecidableEq

/-- The three kinds of pointer. -/
inductive PointerState
  | start
  | index
  | finish
  deriving DecidableEq

namespace Pointer

/-! ## Parts of a pointer -/

/-- The index that the pointer is on. -/
def index? {ι : Type} : Pointer ι → Option ι
  | on i => some i
  | start | finish => none

/-- The kind of a pointer. -/
def state {ι : Type} : Pointer ι → PointerState
  | start => .start
  | on _ => .index
  | finish => .finish

/-- The pointer with a given kind and index; it has an index exactly when it is on an instruction. -/
def ofParts {ι : Type} : PointerState → Option ι → Except Fault (Pointer ι)
  | .start, none => .ok start
  | .index, some i => .ok (on i)
  | .finish, none => .ok finish
  | _, _ => .error .pointerIndex

/-- A pointer in words. -/
def text {ι : Type} [ToString ι] : Pointer ι → String
  | start => "InstructionPointer.start()"
  | on i => s!"InstructionPointer.at({i})"
  | finish => "InstructionPointer.end()"

/-- Which of some pointers are equal: a row for each of them. -/
def equalities {ι : Type} [DecidableEq ι] (ps : List (Pointer ι)) : List (List Bool) :=
  ps.map fun p => ps.map fun q => decide (p = q)

/-- How many different pointers there are among some. -/
def countDistinct {ι : Type} [DecidableEq ι] (ps : List (Pointer ι)) : Nat := ps.eraseDups.length

/-- A pointer is made of its parts, and of no others. -/
theorem ofParts_eq_ok_iff {ι : Type} {s : PointerState} {i : Option ι} {p : Pointer ι} :
    ofParts s i = .ok p ↔ s = p.state ∧ i = p.index? := by
  cases s <;> cases i <;> cases p <;> simp [ofParts, state, index?]

/-! ## Walking -/

/-- The pointer at an index, or past the end when no instruction is there. -/
def atOrFinish (n i : Nat) : Pointer Nat := if i < n then on i else finish

/-- The pointer just before an index. -/
def before : Nat → Pointer Nat
  | 0 => start
  | i + 1 => on i

/-- One position on, over `n` instructions. -/
def next? (n : Nat) : Pointer Nat → Option (Pointer Nat)
  | start => some (atOrFinish n 0)
  | on i => some (atOrFinish n (i + 1))
  | finish => none

/-- One position back, over `n` instructions. -/
def previous? (n : Nat) : Pointer Nat → Option (Pointer Nat)
  | start => none
  | on i => some (before i)
  | finish => some (before n)

/-- The first index after the pointer. -/
def indexAfter (n : Nat) : Pointer Nat → Nat
  | start => 0
  | on i => i + 1
  | finish => n

/-- How many indices come before the pointer. -/
def indicesBefore (n : Nat) : Pointer Nat → Nat
  | start => 0
  | on i => i
  | finish => n

/-- The nearest item after the pointer that has a property. -/
def seekForward? {α : Type} (want : α → Bool) (program : List α) (p : Pointer Nat) : Option Nat :=
  let first := p.indexAfter program.length
  ((program.drop first).findIdx? want).map (first + ·)

/-- The nearest item before the pointer that has a property. -/
def seekBackward? {α : Type} (want : α → Bool) (program : List α) (p : Pointer Nat) : Option Nat :=
  let passed := program.take (p.indicesBefore program.length)
  (passed.reverse.findIdx? want).map (passed.length - 1 - ·)

/-- Where the pointer is once the program has `n` instructions. -/
def onto (n : Nat) : Pointer Nat → Pointer Nat
  | start => start
  | on i => atOrFinish n i
  | finish => finish

/-- The index that the pointer is on although there are only `n` instructions. -/
def stranded? (n : Nat) (p : Pointer Nat) : Option Nat := p.index?.filter (n ≤ ·)

/-! ## Positions over a program -/

/-- The pointer is a position over `n` instructions. -/
def InRange (n : Nat) : Pointer Nat → Prop
  | start | finish => True
  | on i => i < n

instance (n : Nat) (p : Pointer Nat) : Decidable (p.InRange n) := by
  cases p <;> unfold InRange <;> infer_instance

theorem inRange_atOrFinish (n i : Nat) : (atOrFinish n i).InRange n := by
  unfold atOrFinish
  split
  · assumption
  · trivial

theorem inRange_onto (n : Nat) (p : Pointer Nat) : (p.onto n).InRange n := by
  cases p with
  | start => trivial
  | on i => exact inRange_atOrFinish n i
  | finish => trivial

theorem onto_eq_self_iff {n : Nat} {p : Pointer Nat} : p.onto n = p ↔ p.InRange n := by
  cases p <;> simp [onto, InRange, atOrFinish]

theorem inRange_before {n i : Nat} (h : i ≤ n) : (before i).InRange n := by
  cases i with
  | zero => trivial
  | succ i => exact h

theorem inRange_next? {n : Nat} {p q : Pointer Nat} (h : p.next? n = some q) : q.InRange n := by
  cases p <;> simp only [next?, Option.some.injEq, reduceCtorEq] at h <;> subst h <;> exact inRange_atOrFinish ..

theorem inRange_previous? {n : Nat} {p q : Pointer Nat} (hp : p.InRange n) (h : p.previous? n = some q) :
    q.InRange n := by
  cases p <;> simp only [previous?, Option.some.injEq, reduceCtorEq] at h <;> subst h
  · exact inRange_before (Nat.le_of_lt hp)
  · exact inRange_before (Nat.le_refl n)

theorem inRange_seekForward? {α : Type} {want : α → Bool} {program : List α} {p : Pointer Nat} {i : Nat}
    (h : p.seekForward? want program = some i) : (on i).InRange program.length := by
  obtain ⟨k, hk, rfl⟩ := Option.map_eq_some_iff.mp h
  obtain ⟨hlt, -⟩ := List.findIdx?_eq_some_iff_getElem.mp hk
  rw [List.length_drop] at hlt
  show p.indexAfter program.length + k < program.length
  omega

theorem inRange_seekBackward? {α : Type} {want : α → Bool} {program : List α} {p : Pointer Nat} {i : Nat}
    (h : p.seekBackward? want program = some i) : (on i).InRange program.length := by
  obtain ⟨k, hk, rfl⟩ := Option.map_eq_some_iff.mp h
  obtain ⟨hlt, -⟩ := List.findIdx?_eq_some_iff_getElem.mp hk
  rw [List.length_reverse] at hlt
  show _ - 1 - k < program.length
  have := List.length_take_le' (p.indicesBefore program.length) program
  omega

end Pointer

end Rewind
