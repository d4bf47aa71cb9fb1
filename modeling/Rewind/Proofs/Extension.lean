import Rewind.Proofs.Runs

/-!
# Longer programs

A run of a program of commands is a run of every longer program that begins with it.

- Partners stay partners when commands are added behind (`matchingBracket_append`), so that a command lands where it did
  (`Command.Lands.append`);
- `Machine.extended` is the machine with more behind its program. What was the end is the first of the new instructions
  now, and every step that succeeds goes over to it (`Machine.step_extended`);
- `Machine.extend_midway`: it makes no difference whether a program is extended in the middle of a run or was the longer
  one from the start.
-/

namespace Rewind

open Rewind.Action

/-! ## Partners in a longer program -/

section Program

variable {program more : List Item} {i j : Nat}

/-- What is between two places of a program does not depend on what follows. -/
theorem Spans.append (h : Spans program i j) (hj : j ≤ program.length) : Spans (program ++ more) i j := by
  refine ⟨h.lt, ?_⟩
  rw [List.take_append_of_le_length hj]
  exact h.balanced

/-- A partner that was found is found in every longer program. -/
theorem matchingBracket_append (hi : i < program.length) (h : matchingBracket program i = .ok (j : Int)) :
    matchingBracket (program ++ more) i = .ok (j : Int) := by
  have hlength : i < (program ++ more).length := by rw [List.length_append]; omega
  obtain ⟨-, hj⟩ := matchingBracket_lt_length hi h
  have hj : j < program.length := by omega
  by_cases hopening : program[i]?.bind Item.bracket? = some .opening
  · obtain ⟨spans, hclosing⟩ := (matchingBracket_opening_iff hopening).mp h
    rw [matchingBracket_opening_iff (by rwa [List.getElem?_append_left hi])]
    exact ⟨spans.append (Nat.le_of_lt hj), by rwa [List.getElem?_append_left hj]⟩
  · obtain ⟨spans, hpartner⟩ := (matchingBracket_closing_iff hi hopening).mp h
    rw [matchingBracket_closing_iff hlength (by rwa [List.getElem?_append_left hi])]
    exact ⟨spans.append (Nat.le_of_lt hi), by rwa [List.getElem?_append_left hj]⟩

end Program

/-- The pointer over a program of `n` instructions, as a pointer over `total` of them. -/
def Pointer.reopened (n total : Nat) : Pointer Nat → Pointer Nat
  | finish => atOrFinish total n
  | p => p

theorem Pointer.reopened_of_ne {n total : Nat} {p : Pointer Nat} (h : p ≠ finish) : p.reopened n total = p := by
  cases p with
  | start | on => rfl
  | finish => exact absurd rfl h

/-- Where a pointer goes on does not depend on how much follows. -/
theorem Pointer.reopened_atOrFinish {n total i : Nat} (hn : n ≤ total) (hi : i ≤ n) :
    (atOrFinish n i).reopened n total = atOrFinish total i := by
  by_cases hlast : i < n
  · rw [atOrFinish_of_lt hlast, atOrFinish_of_lt (Nat.lt_of_lt_of_le hlast hn)]
    rfl
  · obtain rfl : i = n := by omega
    rw [atOrFinish, if_neg hlast]
    rfl

namespace Command

variable {m w : Machine} {c : Command} {es : List Event} {program more : List Item} {i j : Nat} {value : Cell}

theorem Lands.append (hi : i < program.length) (lands : Lands program i value c j) :
    Lands (program ++ more) i value c j := by
  cases lands with
  | stays stays => exact .stays stays
  | jumps jumps partner => exact .jumps jumps (matchingBracket_append hi partner)

/-- The work of a command does not depend on the program and the pointer. -/
theorem Works.elsewhere (works : Works m c w es) (program : List Item) (p : Pointer Nat) :
    Works { m with program := program, pointer := p } c { w with program := program, pointer := p } es := by
  cases works with
  | moveRight => exact .moveRight
  | moveLeft moved => exact .moveLeft moved
  | increment => exact .increment
  | decrement => exact .decrement
  | emit => exact .emit
  | accept taken => exact .accept taken
  | openLoop => exact .openLoop
  | closeLoop => exact .closeLoop

end Command

namespace Machine

variable {m n : Machine} {more : List Item}

/-- The machine with more instructions behind its program; from the end it goes on with the first of them. -/
def extended (m : Machine) (more : List Item) : Machine :=
  { m with
    program := m.program ++ more
    pointer := m.pointer.reopened m.program.length (m.program ++ more).length }

theorem length_le_extended (m : Machine) (more : List Item) : m.program.length ≤ (m.program ++ more).length := by
  rw [List.length_append]
  omega

/-- A step that succeeds also succeeds with more instructions behind, and leads to the same but for these. -/
theorem step_extended (regular : m.Regular) (more : List Item) {a : Option Item} (h : (step m).result = .ok a) :
    (step (m.extended more)).result = .ok a ∧ (step (m.extended more)).machine = (step m).machine.extended more := by
  have hlength := length_le_extended m more
  have stepped := step_stepped regular
  generalize step m = o at stepped h
  cases stepped with
  | ended | refused => cases h
  | entered start =>
    obtain rfl := Except.ok.inj h
    have hpointer : (m.extended more).pointer = .start := by simp [extended, start, Pointer.reopened]
    have hnone : (m.extended more).current? = none := by simp [current?, hpointer, Pointer.index?]
    rw [step_of_current?_eq_none hnone, advance_apply, hpointer]
    refine ⟨rfl, ?_⟩
    simp only [extended, Pointer.reopened_atOrFinish hlength (Nat.zero_le _)]
    rfl
  | @executed i j c w es on item works lands lt =>
    obtain rfl := Except.ok.inj h
    have hi : i < m.program.length := (List.getElem?_eq_some_iff.mp item).1
    have hpointer : (m.extended more).pointer = .on i := by simp [extended, on, Pointer.reopened]
    have hitem : (m.extended more).program[i]? = some (.command c) := (List.getElem?_append_left hi).trans item
    have hworks : c.Works (m.extended more) _ es := works.elsewhere _ _
    rw [step_of_works hpointer hitem hworks (lands.append hi)]
    refine ⟨rfl, ?_⟩
    simp only [extended, works.program_eq, Pointer.reopened_atOrFinish hlength (Nat.succ_le_of_lt lt)]

theorem repeats_extended {items : List (Option Item)} (regular : m.Regular) (more : List Item)
    (run : Repeats step m items n) : Repeats step (m.extended more) items (n.extended more) := by
  induction run with
  | none => exact .none _
  | once result _ ih =>
    obtain ⟨hresult, hmachine⟩ := step_extended regular more result
    refine .once hresult ?_
    rw [hmachine]
    exact ih regular.step

/-- Unless the machine is at the end, loading the longer program is all that it takes to extend it. -/
theorem load_extended (wellFormed : m.WellFormed) (inside : m.pointer ≠ .finish) (more : List Item) :
    load (m.program ++ more) m = ⟨.ok (), m.extended more, [.loaded (m.program ++ more).length]⟩ := by
  have hin : m.pointer.InRange (m.program ++ more).length := by
    have hlength := length_le_extended m more
    unfold WellFormed at wellFormed
    cases hp : m.pointer with
    | start => trivial
    | finish => trivial
    | on i =>
      rw [hp] at wellFormed
      exact Nat.lt_of_lt_of_le wellFormed hlength
  have hnone : m.pointer.stranded? (m.program ++ more).length = none := by
    cases hp : m.pointer with
    | start | finish => rfl
    | on i =>
      rw [hp] at hin
      have hin : i < (m.program ++ more).length := hin
      simp only [Pointer.stranded?, Pointer.index?, Option.filter_some, decide_eq_true_eq]
      rw [if_neg (by omega)]
  rw [load_apply, loadEvents, hnone, Pointer.onto_eq_self_iff.mpr hin, extended, Pointer.reopened_of_ne inside]

/--
Whatever some steps of a program of commands lead to, the same steps of a longer program lead to the same; only where
the program has come to its end the longer one goes on with the first instruction added, if there is any. Before the
end, loading the longer program gives the very machine that has run it from the start.
-/
theorem extend_midway {p q : List Command} {input : List Cell} {items : List (Option Item)} {m : Machine}
    (run : Repeats step (start (p.map .command) input) items m) :
    ∃ n, Repeats step (start ((p ++ q).map .command) input) items n ∧
      n = { m with
        program := (p ++ q).map .command
        pointer := if m.pointer = .finish then .atOrFinish (p ++ q).length p.length else m.pointer } ∧
      (m.pointer ≠ .finish →
        load ((p ++ q).map .command) m = ⟨.ok (), n, [.loaded (p ++ q).length]⟩) := by
  have regular : (start (p.map .command) input).Regular := ⟨⟨p, rfl⟩, wellFormed_start _ _⟩
  have hprogram : m.program = p.map .command := repeats_program regular run
  have hlonger : m.program ++ q.map .command = (p ++ q).map .command := by rw [hprogram, List.map_append]
  have hrun := repeats_extended regular (q.map .command) run
  have hstart : (start (p.map .command) input).extended (q.map .command) =
      start ((p ++ q).map .command) input := by
    rw [List.map_append]
    rfl
  rw [hstart] at hrun
  refine ⟨_, hrun, ?_, fun inside => ?_⟩
  · have hlength : m.program.length = p.length := by rw [hprogram, List.length_map]
    simp only [extended, hlonger, hlength, List.length_map]
    split
    · rename_i hfinish
      rw [hfinish]
      rfl
    · rename_i inside
      rw [Pointer.reopened_of_ne inside]
  · have hload := load_extended (regular.repeats run).wellFormed inside (q.map .command)
    rwa [hlonger, List.length_map] at hload

/-- A program that closes a loop which it never opened jumps over another one, and goes on with what is added. -/
theorem extend_midway_unbalanced :
    let p : List Command := [.closeLoop, .openLoop, .increment, .closeLoop]
    let q : List Command := [.closeLoop, .emit]
    ∃ m n, Repeats step (start (p.map .command) []) [none, some (.command .closeLoop), some (.command .openLoop)] m ∧
      Repeats step (start ((p ++ q).map .command) []) [none, some (.command .closeLoop), some (.command .openLoop)] n ∧
      m.pointer = .finish ∧ n.pointer = .on 4 ∧ n.history = m.history := by
  intro p q
  have run : Repeats step (start (p.map .command) [])
      [none, some (.command .closeLoop), some (.command .openLoop)] _ := .once rfl (.once rfl (.once rfl (.none _)))
  obtain ⟨n, hrun, hn, -⟩ := extend_midway (q := q) run
  refine ⟨_, n, run, hrun, rfl, ?_, ?_⟩
  · rw [hn]
    rfl
  · rw [hn]

end Machine

end Rewind
