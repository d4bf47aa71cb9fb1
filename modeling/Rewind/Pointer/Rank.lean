import Rewind.Pointer

/-!
# Ranks of pointers

Over a program of `n` instructions the positions of a pointer are the integers from `-1` to `n`: `Pointer.rank`
numbers them. Different positions have different ranks (`rank_inj`), and walking adds or takes away one
(`rank_next?`, `rank_previous?`) unless the pointer is at that end (`next?_eq_none_iff`, `previous?_eq_none_iff`).
-/

namespace Rewind.Pointer

/-- The number of a position: `-1` before the program, `n` past it. -/
def rank (n : Nat) : Pointer Nat → Int
  | start => -1
  | on i => i
  | finish => n

variable {n : Nat} {p q : Pointer Nat}

theorem rank_atOrFinish {i : Nat} (h : i ≤ n) : (atOrFinish n i).rank n = i := by
  unfold atOrFinish
  split
  · rfl
  · show (n : Int) = i
    omega

theorem rank_before (i : Nat) : (before i).rank n = i - 1 := by
  cases i with
  | zero => rfl
  | succ i =>
    show (i : Int) = (i + 1 : Nat) - 1
    omega

/-- Positions with the same rank are the same. -/
theorem rank_inj (hp : p.InRange n) (hq : q.InRange n) : p.rank n = q.rank n ↔ p = q := by
  cases p <;> cases q <;> simp only [rank, InRange] at * <;> simp <;> omega

theorem rank_next? (hp : p.InRange n) (h : p.next? n = some q) : q.rank n = p.rank n + 1 := by
  cases p with
  | start =>
    obtain rfl := Option.some.inj h
    exact rank_atOrFinish (Nat.zero_le n)
  | on i =>
    obtain rfl := Option.some.inj h
    exact rank_atOrFinish hp
  | finish => simp [next?] at h

theorem rank_previous? (h : p.previous? n = some q) : q.rank n = p.rank n - 1 := by
  cases p with
  | start => simp [previous?] at h
  | on i =>
    obtain rfl := Option.some.inj h
    exact rank_before i
  | finish =>
    obtain rfl := Option.some.inj h
    exact rank_before n

theorem next?_eq_none_iff (hp : p.InRange n) : p.next? n = none ↔ p.rank n = n := by
  cases p with
  | start => simp [next?, rank]
  | on i =>
    have hp : i < n := hp
    simp only [next?, rank, reduceCtorEq, false_iff]
    omega
  | finish => simp [next?, rank]

theorem previous?_eq_none_iff : p.previous? n = none ↔ p.rank n = -1 := by
  cases p <;> simp [previous?, rank]

theorem previous?_eq_none_iff_start : p.previous? n = none ↔ p = start := by
  cases p <;> simp [previous?]

theorem previous?_ne_self : p.previous? n ≠ some p := by
  intro h
  have hrank := rank_previous? h
  omega

end Rewind.Pointer
