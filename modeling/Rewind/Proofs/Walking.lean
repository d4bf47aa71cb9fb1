import Rewind.Proofs.Repetition
import Rewind.Proofs.Seeking

/-!
# Walking along a program

Over a program of `n` instructions the pointer walks along `n + 2` positions, which have the ranks from `-1` to `n`.

- `Machine.Moved` lists the outcomes of a move, each with the ranks for which it comes about (`Machine.act_eq_iff`);
- `Machine.walk` makes one move after the other and goes on after faults; nothing but the pointer changes
  (`Machine.walk_steady`);
- as many moves back as there were moves one way lead to where they began (`Machine.repeats_back`), and without jumps a
  walk adds and takes away ones between the two ends (`Machine.rank_walk_go`).
-/

namespace Rewind

open Rewind.Action

namespace Direction

/-- What one position this way adds to the rank. -/
def stride : Direction → Int
  | next => 1
  | previous => -1

/-- The rank of the last position this way. -/
def lastRank (n : Nat) : Direction → Int
  | next => n
  | previous => -1

/-- From rank `r` one further this way, but not beyond the ranks `-1` and `n`. -/
def clamped (n : Nat) (r : Int) (d : Direction) : Int := max (-1) (min (n : Int) (r + d.stride))

end Direction

/-- A move of the pointer: one position on or back, or to an index. -/
inductive Move
  | go (way : Direction)
  | jump (index : Int)

/-- Makes a move. -/
def Move.act : Move → Action Unit
  | go .next => Machine.advance
  | go .previous => Machine.retreat
  | jump index => Machine.jump index

namespace Pointer

variable {n : Nat} {p q : Pointer Nat} {d : Direction}

/-- One position on or back. -/
def neighbour? (d : Direction) (n : Nat) (p : Pointer Nat) : Option (Pointer Nat) :=
  match d with
  | .next => p.next? n
  | .previous => p.previous? n

theorem neighbour?_eq_none_iff (hp : p.InRange n) : p.neighbour? d n = none ↔ p.rank n = d.lastRank n := by
  cases d with
  | next => exact next?_eq_none_iff hp
  | previous => exact previous?_eq_none_iff

theorem inRange_neighbour? (hp : p.InRange n) (h : p.neighbour? d n = some q) : q.InRange n := by
  cases d with
  | next => exact inRange_next? h
  | previous => exact inRange_previous? hp h

theorem rank_neighbour? (hp : p.InRange n) (h : p.neighbour? d n = some q) : q.rank n = p.rank n + d.stride := by
  cases d with
  | next => exact rank_next? hp h
  | previous => exact rank_previous? h

theorem rank_bounds (hp : p.InRange n) : -1 ≤ p.rank n ∧ p.rank n ≤ n := by
  cases p with
  | start | finish =>
    simp only [rank]
    omega
  | on i =>
    have hp : i < n := hp
    simp only [rank]
    omega

end Pointer

namespace Machine

variable {m n : Machine} {d : Direction} {move : Move}

/-- The rank of the position that the pointer is at. -/
def rank (m : Machine) : Int := m.pointer.rank m.program.length

/-- What a move comes to, and for which ranks. -/
inductive Moved (m : Machine) : Move → Outcome Unit → Prop
  | exhausted {d : Direction} (limit : m.rank = d.lastRank m.program.length) :
    Moved m (.go d) ⟨.error d.exhausted, m, []⟩
  | gone {d : Direction} {p : Pointer Nat} (inside : m.rank ≠ d.lastRank m.program.length)
    (inRange : p.InRange m.program.length) (rank : p.rank m.program.length = m.rank + d.stride) :
    Moved m (.go d) ⟨.ok (), { m with pointer := p }, []⟩
  | outOfRange {index : Int} (outside : ¬(0 ≤ index ∧ index < m.program.length)) :
    Moved m (.jump index) ⟨.error (.outOfRange index (lastIndex? m.program.length)), m, []⟩
  | jumped {index : Int} {p : Pointer Nat} (inside : 0 ≤ index ∧ index < m.program.length)
    (inRange : p.InRange m.program.length) (rank : p.rank m.program.length = index) :
    Moved m (.jump index) ⟨.ok (), { m with pointer := p }, []⟩

/-! ## One move -/

theorem act_go (d : Direction) (m : Machine) :
    (Move.go d).act m = m.movedTo d.exhausted (m.pointer.neighbour? d m.program.length) := by
  cases d with
  | next => exact advance_apply m
  | previous => exact retreat_apply m

theorem act_moved (wellFormed : m.WellFormed) (move : Move) : m.Moved move (move.act m) := by
  cases move with
  | go d =>
    rw [act_go]
    cases h : m.pointer.neighbour? d m.program.length with
    | none => exact .exhausted ((Pointer.neighbour?_eq_none_iff wellFormed).mp h)
    | some p =>
      have inside : m.rank ≠ d.lastRank m.program.length := by
        intro limit
        cases h.symm.trans ((Pointer.neighbour?_eq_none_iff wellFormed).mpr limit)
      exact .gone inside (Pointer.inRange_neighbour? wellFormed h) (Pointer.rank_neighbour? wellFormed h)
  | jump index =>
    show m.Moved (.jump index) (jump index m)
    rw [jump_apply]
    split
    · rename_i inside
      have hindex : (index.toNat : Int) = index := Int.toNat_of_nonneg inside.1
      exact .jumped inside (show index.toNat < m.program.length by omega) hindex
    · rename_i outside
      exact .outOfRange outside

/-- The conditions exclude each other, and there is one position for every rank. -/
theorem Moved.unique {o o' : Outcome Unit} (h : m.Moved move o) (h' : m.Moved move o') : o = o' := by
  cases h with
  | exhausted limit =>
    cases h' with
    | exhausted => rfl
    | gone inside => exact absurd limit inside
  | gone inside inRange rank =>
    cases h' with
    | exhausted limit => exact absurd limit inside
    | gone _ inRange' rank' => rw [(Pointer.rank_inj inRange inRange').mp (rank.trans rank'.symm)]
  | outOfRange outside =>
    cases h' with
    | outOfRange => rfl
    | jumped inside => exact absurd inside outside
  | jumped inside inRange rank =>
    cases h' with
    | outOfRange outside => exact absurd inside outside
    | jumped _ inRange' rank' => rw [(Pointer.rank_inj inRange inRange').mp (rank.trans rank'.symm)]

/-- A move comes to what is listed, each under its own condition. -/
theorem act_eq_iff (wellFormed : m.WellFormed) {o : Outcome Unit} : move.act m = o ↔ m.Moved move o :=
  ⟨fun h => h ▸ act_moved wellFormed move, fun h => (act_moved wellFormed move).unique h⟩

/-- Whatever a move comes to, only the pointer has changed, and it is at a position of the program. -/
theorem Moved.steady {o : Outcome Unit} (wellFormed : m.WellFormed) (h : m.Moved move o) :
    o.machine.WellFormed ∧ o.machine = { m with pointer := o.machine.pointer } := by
  cases h with
  | exhausted | outOfRange => exact ⟨wellFormed, rfl⟩
  | gone _ inRange | jumped _ inRange => exact ⟨inRange, rfl⟩

/-! ## Walks -/

/-- The machine after some moves, going on after those that fail. -/
def walk (m : Machine) (moves : List Move) : Machine := moves.foldl (fun m move => (move.act m).machine) m

theorem walk_cons (m : Machine) (move : Move) (moves : List Move) :
    m.walk (move :: moves) = (move.act m).machine.walk moves := rfl

/-- A walk changes nothing but the pointer, which stays at the positions of the program. -/
theorem walk_steady (wellFormed : m.WellFormed) (moves : List Move) :
    (m.walk moves).WellFormed ∧ m.walk moves = { m with pointer := (m.walk moves).pointer } := by
  induction moves generalizing m with
  | nil => exact ⟨wellFormed, rfl⟩
  | cons move moves ih =>
    obtain ⟨hfirst, hsame⟩ := (act_moved wellFormed move).steady wellFormed
    obtain ⟨hrest, hwalk⟩ := ih hfirst
    rw [walk_cons]
    refine ⟨hrest, hwalk.trans ?_⟩
    rw [hsame]

/-- One position on or back is undone by one position the other way. -/
theorem go_opposite (wellFormed : m.WellFormed) (moved : ((Move.go d).act m).result = .ok ()) :
    (Move.go d.opposite).act ((Move.go d).act m).machine = ⟨.ok (), m, []⟩ := by
  have h := act_moved wellFormed (.go d)
  generalize (Move.go d).act m = o at h moved
  cases h with
  | exhausted => cases moved
  | @gone _ p inside inRange rank =>
    have hbounds := Pointer.rank_bounds wellFormed
    have hrank : m.rank = m.pointer.rank m.program.length := rfl
    have back : Moved { m with pointer := p } (.go d.opposite) ⟨.ok (), { m with pointer := m.pointer }, []⟩ := by
      refine .gone ?_ wellFormed ?_
      · show p.rank m.program.length ≠ d.opposite.lastRank m.program.length
        rw [rank]
        cases d <;> simp only [Direction.opposite, Direction.lastRank, Direction.stride] at * <;> omega
      · show m.rank = p.rank m.program.length + d.opposite.stride
        rw [rank]
        cases d <;> simp only [Direction.opposite, Direction.stride] <;> omega
    exact (act_eq_iff (m := { m with pointer := p }) inRange).mpr back

/-- As many positions back lead to where the way began. -/
theorem repeats_back {k : Nat} (wellFormed : m.WellFormed)
    (h : Repeats (Move.go d).act m (List.replicate k ()) n) :
    Repeats (Move.go d.opposite).act n (List.replicate k ()) m := by
  induction k generalizing m with
  | zero =>
    obtain rfl := repeats_nil_iff.mp h
    exact .none _
  | succ k ih =>
    obtain ⟨moved, rest⟩ := repeats_cons_iff.mp h
    obtain ⟨hfirst, -⟩ := (act_moved wellFormed (.go d)).steady wellFormed
    have hback := go_opposite wellFormed moved
    have last : Repeats (Move.go d.opposite).act ((Move.go d).act m).machine [()] m := by
      have hone := repeats_one (x := (Move.go d.opposite).act) (congrArg Outcome.result hback)
      rwa [hback] at hone
    rw [List.replicate_succ']
    exact (ih hfirst rest).append last

/-- One position on or back adds to the rank, but not beyond either end. -/
theorem rank_go (wellFormed : m.WellFormed) (d : Direction) :
    ((Move.go d).act m).machine.rank = d.clamped m.program.length m.rank := by
  have hbounds := Pointer.rank_bounds wellFormed
  have hrank : m.rank = m.pointer.rank m.program.length := rfl
  have h := act_moved wellFormed (.go d)
  generalize (Move.go d).act m = o at h
  cases h with
  | exhausted limit =>
    show m.rank = d.clamped m.program.length m.rank
    cases d <;> simp only [Direction.lastRank, Direction.clamped, Direction.stride] at * <;> omega
  | @gone _ p _ inRange rank =>
    have hp := Pointer.rank_bounds inRange
    show p.rank m.program.length = d.clamped m.program.length m.rank
    unfold Direction.clamped
    omega

/-- Without jumps a walk adds to the rank and takes away from it between the two ends. -/
theorem rank_walk_go (wellFormed : m.WellFormed) (ways : List Direction) :
    (m.walk (ways.map .go)).rank = ways.foldl (Direction.clamped m.program.length) m.rank := by
  induction ways generalizing m with
  | nil => rfl
  | cons d ways ih =>
    obtain ⟨hfirst, hsame⟩ := (act_moved wellFormed (.go d)).steady wellFormed
    have hprogram : ((Move.go d).act m).machine.program = m.program := by rw [hsame]
    rw [List.map_cons, walk_cons, ih hfirst, List.foldl_cons, rank_go wellFormed d, hprogram]

/--
Wherever moves have led the pointer, caught faults among them, nothing else has changed, and the next move fails or
leads on as the rank of the pointer says. As many moves back as there were moves one way lead to where they began, and
without jumps a walk adds and takes away ones between the ends `-1` and `n`.
-/
theorem walk_bounded (wellFormed : m.WellFormed) :
    (∀ moves, (m.walk moves).WellFormed ∧ m.walk moves = { m with pointer := (m.walk moves).pointer } ∧
        -1 ≤ (m.walk moves).rank ∧ (m.walk moves).rank ≤ m.program.length ∧
        ∀ move o, move.act (m.walk moves) = o ↔ (m.walk moves).Moved move o) ∧
      (∀ k n, Repeats advance m (List.replicate k ()) n → Repeats retreat n (List.replicate k ()) m) ∧
      (∀ k n, Repeats retreat m (List.replicate k ()) n → Repeats advance n (List.replicate k ()) m) ∧
      ∀ ways : List Direction,
        (m.walk (ways.map .go)).rank = ways.foldl (Direction.clamped m.program.length) m.rank := by
  refine ⟨fun moves => ?_, fun k n h => repeats_back (d := .next) wellFormed h,
    fun k n h => repeats_back (d := .previous) wellFormed h, rank_walk_go wellFormed⟩
  obtain ⟨hwalk, hsame⟩ := walk_steady wellFormed moves
  obtain ⟨hlow, hhigh⟩ := Pointer.rank_bounds hwalk
  have hprogram : (m.walk moves).program = m.program := by rw [hsame]
  rw [hprogram] at hhigh
  refine ⟨hwalk, hsame, hlow, ?_, fun move o => act_eq_iff hwalk⟩
  rwa [rank, hprogram]

/-- Off both ends of two instructions and to an index that is not there; and the two positions of an empty program. -/
theorem walk_bounded_both_ends :
    let m : Machine := { start [.command .increment, .custom "jump" [.jump 7] []] [] with pointer := .on 1 }
    m.WellFormed ∧
      (m.walk [.go .next, .go .next, .jump 2, .go .previous, .go .previous]).Moved (.go .previous)
        ⟨.ok (), { m with pointer := .start }, []⟩ ∧
      Repeats retreat { m with pointer := .finish } [()] m ∧
      (m.walk (List.map .go [.next, .next, .previous, .previous, .previous, .previous, .next])).rank = 0 ∧
      ((start [] []).walk [.go .next]).Moved (.go .next)
        ⟨.error .pastEnd, { start [] [] with pointer := .finish }, []⟩ := by
  intro m
  have wellFormed : m.WellFormed := by decide
  obtain ⟨moved, back, -, clamped⟩ := walk_bounded wellFormed
  obtain ⟨empty, -⟩ := walk_bounded (wellFormed_start [] [])
  obtain ⟨-, -, -, -, moves⟩ := moved [.go .next, .go .next, .jump 2, .go .previous, .go .previous]
  obtain ⟨-, -, -, -, ends⟩ := empty [.go .next]
  have atStart := (moves (.go .previous) ⟨.ok (), { m with pointer := .start }, []⟩).mp rfl
  have atFinish := (ends (.go .next) ⟨.error .pastEnd, { start [] [] with pointer := .finish }, []⟩).mp rfl
  have last : Repeats advance m [()] { m with pointer := .finish } := .once rfl (.none _)
  have rank := clamped [.next, .next, .previous, .previous, .previous, .previous, .next]
  exact ⟨wellFormed, atStart, back 1 _ last, rank.trans (by decide), atFinish⟩

end Machine

end Rewind
