import Rewind.Tape

/-!
# Trailing zero cells

`Tape.pad` adds zero cells at the far end of a tape, and `Tape.Alike` says that two tapes differ only in their number.
A change of a padded tape is the padded change (`change?_pad`). `Tape.growth` is the number of cells that a tape has
gained; with so many cells to spare a move to the right makes no new one (`moveRight_pad_growth`).
-/

namespace Rewind.Tape

/-- The tape with `k` more zero cells at its far end. -/
def pad (k : Nat) (t : Tape) : Tape := { t with right := t.right ++ List.replicate k 0 }

/-- The tapes differ at most in the number of their trailing zero cells. -/
def Alike (t u : Tape) : Prop := ∃ v j k, t = pad j v ∧ u = pad k v

@[simp] theorem cells_pad (k : Nat) (t : Tape) : (t.pad k).cells = t.cells ++ List.replicate k 0 := by
  simp [pad, cells]

@[simp] theorem cursor_pad (k : Nat) (t : Tape) : (t.pad k).cursor = t.cursor := rfl

@[simp] theorem here_pad (k : Nat) (t : Tape) : (t.pad k).here = t.here := rfl

@[simp] theorem pad_zero (t : Tape) : t.pad 0 = t := by simp [pad]

@[simp] theorem pad_pad (j k : Nat) (t : Tape) : (t.pad j).pad k = t.pad (j + k) := by
  simp [pad, List.replicate_append_replicate]

/-- Moving right over padding uses up one of its cells when the tape itself ends. -/
theorem moveRight_pad (k : Nat) (t : Tape) : ∃ j ≤ k, (t.pad k).moveRight = t.moveRight.pad j := by
  obtain ⟨l, x, r⟩ := t
  cases r with
  | cons y r => exact ⟨k, Nat.le_refl k, rfl⟩
  | nil =>
    cases k with
    | zero => exact ⟨0, Nat.le_refl 0, rfl⟩
    | succ k => exact ⟨k, Nat.le_succ k, by simp [pad, moveRight, List.replicate_succ]⟩

/-- How many cells the second tape is longer. -/
def growth (t u : Tape) : Nat := u.cells.length - t.cells.length

@[simp] theorem growth_self (t : Tape) : t.growth t = 0 := Nat.sub_self _

@[simp] theorem growth_write (value : Cell) (t : Tape) : t.growth (t.write value) = 0 := by
  simp [growth, cells_write]

theorem growth_left {t u : Tape} (h : t.moveLeft? = some u) : t.growth u = 0 := by simp [growth, cells_left h]

theorem growth_right (t : Tape) : t.growth t.moveRight = if t.right = [] then 1 else 0 := by
  obtain ⟨l, x, r⟩ := t
  cases r <;> simp [growth, moveRight, cells]

/-- A tape that has the cells to spare by which another one has grown does not grow. -/
@[simp] theorem growth_pad (t u : Tape) (k : Nat) : (t.pad (t.growth u + k)).growth (u.pad k) = 0 := by
  simp only [growth, cells_pad, List.length_append, List.length_replicate]
  omega

/-- With cells to spare the move to the right makes no new one. -/
theorem moveRight_pad_growth (t : Tape) (k : Nat) :
    (t.pad (t.growth t.moveRight + k)).moveRight = t.moveRight.pad k := by
  rw [growth_right]
  obtain ⟨l, x, r⟩ := t
  cases r with
  | nil => simp [pad, moveRight, Nat.add_comm 1 k, List.replicate_succ]
  | cons y r => simp [pad, moveRight]

theorem moveLeft?_pad (k : Nat) (t : Tape) : (t.pad k).moveLeft? = t.moveLeft?.map (pad k) := by
  obtain ⟨l, x, r⟩ := t
  cases l <;> rfl

theorem write_pad (value : Cell) (k : Nat) (t : Tape) : (t.pad k).write value = (t.write value).pad k := rfl

/-- A change of a padded tape is the padded change. -/
theorem change?_pad (c : Change) (k : Nat) (t : Tape) : ∃ j, (t.pad k).change? c = (t.change? c).map (pad j) := by
  cases c with
  | right =>
    obtain ⟨j, -, h⟩ := moveRight_pad k t
    exact ⟨j, by simp [change?, h]⟩
  | left => exact ⟨k, moveLeft?_pad k t⟩
  | write value => exact ⟨k, rfl⟩
  | clear => exact ⟨0, by simp [change?]⟩

namespace Alike

theorem refl (t : Tape) : Alike t t := ⟨t, 0, 0, by simp, by simp⟩

theorem symm {t u : Tape} (h : Alike t u) : Alike u t := by
  obtain ⟨v, j, k, ht, hu⟩ := h
  exact ⟨v, k, j, hu, ht⟩

theorem cursor_eq {t u : Tape} (h : Alike t u) : t.cursor = u.cursor := by
  obtain ⟨v, j, k, rfl, rfl⟩ := h
  rfl

theorem here_eq {t u : Tape} (h : Alike t u) : t.here = u.here := by
  obtain ⟨v, j, k, rfl, rfl⟩ := h
  rfl

end Alike

end Rewind.Tape
