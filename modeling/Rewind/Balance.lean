import Rewind.Bracket

/-!
# Balance

`excess side xs` counts the opening brackets of a list less the closing ones, and `Balanced side xs` says that no
closing bracket comes too early and none is missing at the end. Items that are no brackets do not count
(`balanced_of_forall_none`), and a balanced list between a pair of brackets is balanced again (`Balanced.enclose`).
-/

namespace Rewind

/-- What an item counts: one up for an opening bracket, one down for a closing one. -/
def Bracket.weight : Option Bracket → Int
  | some .opening => 1
  | some .closing => -1
  | none => 0

variable {α : Type} {side : α → Option Bracket}

/-- Opening brackets less closing ones. -/
def excess (side : α → Option Bracket) : List α → Int
  | [] => 0
  | x :: xs => Bracket.weight (side x) + excess side xs

/-- Every closing bracket has its opening one before it, and every opening bracket is closed. -/
structure Balanced (side : α → Option Bracket) (xs : List α) : Prop where
  /-- No part from the beginning closes more than it opens. -/
  never_below : ∀ ys, ys <+: xs → 0 ≤ excess side ys
  /-- In the end nothing is open. -/
  settled : excess side xs = 0

@[simp] theorem excess_nil : excess side [] = 0 := rfl

@[simp] theorem excess_cons (x : α) (xs : List α) :
    excess side (x :: xs) = Bracket.weight (side x) + excess side xs := rfl

@[simp] theorem excess_append (xs ys : List α) : excess side (xs ++ ys) = excess side xs + excess side ys := by
  induction xs with
  | nil => simp
  | cons x xs ih => simp [ih]; omega

theorem balanced_nil : Balanced side [] :=
  ⟨fun ys h => by simp [List.prefix_nil.mp h], rfl⟩

theorem excess_of_forall_none {xs : List α} (h : ∀ x ∈ xs, side x = none) : excess side xs = 0 := by
  induction xs with
  | nil => rfl
  | cons x xs ih =>
    rw [excess_cons, h x (by simp), ih (fun y hy => h y (by simp [hy]))]
    rfl

/-- Without brackets a list is balanced. -/
theorem balanced_of_forall_none {xs : List α} (h : ∀ x ∈ xs, side x = none) : Balanced side xs where
  never_below _ hys := Int.le_of_eq (excess_of_forall_none fun y hy => h y (hys.subset hy)).symm
  settled := excess_of_forall_none h

/-- A part from the beginning of two lists ends in the first one or in the second one. -/
theorem part_of_append {xs ys zs : List α} (h : zs <+: xs ++ ys) :
    zs <+: xs ∨ ∃ ws, zs = xs ++ ws ∧ ws <+: ys := by
  rcases List.prefix_or_prefix_of_prefix h (List.prefix_append xs ys) with h' | ⟨ws, rfl⟩
  · exact Or.inl h'
  · exact Or.inr ⟨ws, rfl, (List.prefix_append_right_inj xs).mp h⟩

theorem Balanced.append {xs ys : List α} (hx : Balanced side xs) (hy : Balanced side ys) :
    Balanced side (xs ++ ys) where
  never_below zs hzs := by
    rcases part_of_append hzs with h | ⟨ws, rfl, h⟩
    · exact hx.never_below zs h
    · rw [excess_append, hx.settled]
      have := hy.never_below ws h
      omega
  settled := by rw [excess_append, hx.settled, hy.settled]; rfl

/-- A balanced list between a pair of brackets is balanced. -/
theorem Balanced.enclose {x y : α} {xs : List α} (hx : side x = some .opening) (hy : side y = some .closing)
    (h : Balanced side xs) : Balanced side (x :: (xs ++ [y])) where
  never_below zs hzs := by
    cases zs with
    | nil => exact Int.le_refl 0
    | cons z zs =>
      obtain ⟨rfl, htail⟩ := List.cons_prefix_cons.mp hzs
      rw [excess_cons, hx]
      simp only [Bracket.weight]
      rcases part_of_append htail with hin | ⟨ws, rfl, hws⟩
      · have := h.never_below zs hin
        omega
      · rw [excess_append, h.settled]
        cases ws with
        | nil => simp
        | cons w ws =>
          obtain ⟨rfl, hend⟩ := List.cons_prefix_cons.mp hws
          rw [List.prefix_nil.mp hend]
          simp [hy, Bracket.weight]
  settled := by
    rw [excess_cons, excess_append, excess_cons, hx, hy, h.settled]
    rfl

end Rewind
