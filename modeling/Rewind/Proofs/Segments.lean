/-!
# Segments of lists

An item splits a list into what comes before it and what comes after it, and two items leave a segment between them.

- `exists_around` and `exists_around_both` split a list at one place or at two, and
  `exists_around_later` tells where the later of two places is;
- `getElem?_around_left`, `getElem?_around_right`, `take_around`, `between_around` and `filterMap_around` find the
  parts again;
- `between_eq_append`: an item in the midst of a segment splits the segment.
-/

namespace Rewind

variable {α : Type} {xs before between after : List α} {x y : α} {i j k : Nat}

/-- The items before a place and after it. -/
theorem exists_around (hx : xs[i]? = some x) : ∃ before after, xs = before ++ x :: after ∧ before.length = i := by
  obtain ⟨hlt, rfl⟩ := List.getElem?_eq_some_iff.mp hx
  refine ⟨xs.take i, xs.drop (i + 1), ?_, by rw [List.length_take]; omega⟩
  rw [← List.drop_eq_getElem_cons hlt, List.take_append_drop]

/-- The items before two places, between them and after them. -/
theorem exists_around_both (hij : i < j) (hx : xs[i]? = some x) (hy : xs[j]? = some y) :
    ∃ before between after, xs = before ++ x :: (between ++ y :: after) ∧ before.length = i ∧
      i + 1 + between.length = j := by
  obtain ⟨front, after, rfl, rfl⟩ := exists_around hy
  rw [List.getElem?_append_left hij] at hx
  obtain ⟨before, between, rfl, rfl⟩ := exists_around hx
  refine ⟨before, between, after, by simp, rfl, ?_⟩
  simp only [List.length_append, List.length_cons]
  omega

/-- Of two places the later one is in what comes after the earlier one. -/
theorem exists_around_later {after' : List α} (h : before ++ x :: after' = between ++ y :: after)
    (hlt : before.length < between.length) :
    ∃ inner, between = before ++ x :: inner ∧ after' = inner ++ y :: after := by
  rcases List.append_eq_append_iff.mp h with ⟨front, rfl, hrest⟩ | ⟨front, rfl, -⟩
  · cases front with
    | nil => simp at hlt
    | cons z inner =>
      obtain ⟨rfl, rfl⟩ := List.cons.inj hrest
      exact ⟨inner, rfl, rfl⟩
  · rw [List.length_append] at hlt
    omega

theorem getElem?_around_left : (before ++ x :: (between ++ y :: after))[before.length]? = some x := by simp

theorem getElem?_around_right :
    (before ++ x :: (between ++ y :: after))[before.length + 1 + between.length]? = some y := by
  rw [show before ++ x :: (between ++ y :: after) = (before ++ x :: between) ++ y :: after by simp,
    show before.length + 1 + between.length = (before ++ x :: between).length by simp; omega]
  simp

theorem take_around :
    (before ++ x :: (between ++ y :: after)).take (before.length + 1 + between.length) = before ++ x :: between := by
  rw [show before ++ x :: (between ++ y :: after) = (before ++ x :: between) ++ y :: after by simp]
  exact List.take_left' (by simp; omega)

theorem between_around :
    ((before ++ x :: (between ++ y :: after)).take (before.length + 1 + between.length)).drop (before.length + 1) =
      between := by
  rw [take_around]
  simp

theorem filterMap_around {β : Type} {f : α → Option β} {z : β} (hx : f x = some z) :
    (before ++ x :: after).filterMap f = before.filterMap f ++ z :: after.filterMap f := by
  rw [List.filterMap_append, List.filterMap_cons_some hx]

/-- An item in the midst of a segment splits it in two. -/
theorem between_eq_append (hik : i < k) (hkj : k < j) (hx : xs[k]? = some x) :
    (xs.take j).drop (i + 1) = (xs.take k).drop (i + 1) ++ x :: (xs.take j).drop (k + 1) := by
  obtain ⟨before, after, rfl, rfl⟩ := exists_around hx
  obtain ⟨d, rfl⟩ : ∃ d, j = before.length + (d + 1) := ⟨j - before.length - 1, by omega⟩
  rw [List.take_length_add_append, List.take_left, List.take_succ_cons, List.drop_append_of_le_length hik]
  simp

end Rewind
