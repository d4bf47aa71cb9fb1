import Rewind.Command

/-!
# Brackets

- `Bracket`, the two ends of a loop, and `Command.bracket?`, the commands that are brackets
  (`Command.bracket?_eq_some_iff`);
- `Bracket.reach`, the search for the partner of a bracket along a list, with a counter of nested brackets
  (`reach_lt_length`).
-/

namespace Rewind

/-- The two ends of a loop. -/
inductive Bracket
  | opening
  | closing
  deriving DecidableEq

namespace Bracket

/-- The bracket at the other end. -/
def other : Bracket → Bracket
  | opening => closing
  | closing => opening

@[simp] theorem other_other (b : Bracket) : b.other.other = b := by cases b <;> rfl

theorem other_ne (b : Bracket) : b.other ≠ b := by cases b <;> decide

/--
How many items come before the partner of a bracket `b` that stands just ahead of the list. Each further `b` on
the way hides one bracket of the other kind; `depth` of them are still hidden.
-/
def reach {α : Type} (side : α → Option Bracket) (b : Bracket) : Nat → List α → Option Nat
  | _, [] => none
  | depth, x :: xs =>
    if side x = some b then (reach side b (depth + 1) xs).map (· + 1)
    else if side x = some b.other then
      match depth with
      | 0 => some 0
      | depth + 1 => (reach side b depth xs).map (· + 1)
    else (reach side b depth xs).map (· + 1)

/-- The partner is an item of the list. -/
theorem reach_lt_length {α : Type} {side : α → Option Bracket} {b : Bracket} :
    ∀ {depth : Nat} {xs : List α} {k : Nat}, reach side b depth xs = some k → k < xs.length
  | _, [], _, h => by simp [reach] at h
  | depth, x :: xs, k, h => by
    have tail : ∀ {d : Nat}, (reach side b d xs).map (· + 1) = some k → k < (x :: xs).length := by
      intro d h
      obtain ⟨j, hj, rfl⟩ := Option.map_eq_some_iff.mp h
      have := reach_lt_length hj
      simp only [List.length_cons]; omega
    unfold reach at h
    split at h
    · exact tail h
    · split at h
      · split at h
        · obtain rfl : 0 = k := by simpa using h
          simp
        · exact tail h
      · exact tail h

end Bracket

/-- The bracket that a command is, if it is one. -/
def Command.bracket? : Command → Option Bracket
  | .openLoop => some .opening
  | .closeLoop => some .closing
  | _ => none

/-- The command that is a bracket. -/
def Bracket.command : Bracket → Command
  | opening => .openLoop
  | closing => .closeLoop

theorem Command.bracket?_eq_some_iff {c : Command} {b : Bracket} : c.bracket? = some b ↔ b.command = c := by
  cases c <;> cases b <;> decide

end Rewind
