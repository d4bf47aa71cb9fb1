import Rewind.Cell

/-!
# Tapes

A tape is a row of cells, one of them under the cursor. It has a first cell and grows by one zero cell when the
cursor leaves the last one.

- `Tape.cells` and `Tape.cursor` are the two views of a tape, and `cursor_lt_length` relates them;
- `Tape.Change` lists the ways in which a tape can change, and `Tape.change?` makes a change. What a change does to
  the views is said by `cells_right`, `cursor_right`, `cells_left`, `cursor_left`, `cells_write`, `cursor_write`;
  only the move left can fail, and only on the first cell (`moveLeft?_eq_none_iff`).
-/

namespace Rewind

/-- A tape, split at the cursor. -/
structure Tape where
  /-- The cells before the cursor, nearest first. -/
  left : List Cell
  /-- The cell under the cursor. -/
  here : Cell
  /-- The cells after the cursor. -/
  right : List Cell
  deriving DecidableEq

namespace Tape

/-- A tape of one zero cell. -/
def blank : Tape := ⟨[], 0, []⟩

/-- All cells from the first one on. -/
def cells (t : Tape) : List Cell := t.left.reverse ++ t.here :: t.right

/-- How many cells come before the cursor. -/
def cursor (t : Tape) : Nat := t.left.length

/-- The cursor is on a cell of the tape. -/
theorem cursor_lt_length (t : Tape) : t.cursor < t.cells.length := by
  simp [cursor, cells]

/-- The cell under the cursor is the one that the views show there. -/
theorem getElem?_cells_cursor (t : Tape) : t.cells[t.cursor]? = some t.here := by
  simp [cursor, cells]

/-- The views determine the tape. -/
theorem ext_views {t u : Tape} (hcells : t.cells = u.cells) (hcursor : t.cursor = u.cursor) : t = u := by
  obtain ⟨l, x, r⟩ := t
  obtain ⟨l', x', r'⟩ := u
  obtain ⟨hl, hr⟩ := List.append_inj hcells (by simpa [cursor] using hcursor)
  simp_all

/-! ## Changes -/

/-- A change of a tape. -/
inductive Change
  /-- The cursor moves right; past the last cell there is a new zero cell. -/
  | right
  /-- The cursor moves left. -/
  | left
  /-- The cell under the cursor gets a value. -/
  | write (value : Cell)
  /-- The tape is a blank one again. -/
  | clear
  deriving DecidableEq

/-- The cursor one cell on. -/
def moveRight : Tape → Tape
  | ⟨l, x, []⟩ => ⟨x :: l, 0, []⟩
  | ⟨l, x, y :: r⟩ => ⟨x :: l, y, r⟩

/-- The cursor one cell back, unless it is on the first cell. -/
def moveLeft? : Tape → Option Tape
  | ⟨[], _, _⟩ => none
  | ⟨y :: l, x, r⟩ => some ⟨l, y, x :: r⟩

/-- The tape with another value under the cursor. -/
def write (value : Cell) (t : Tape) : Tape := { t with here := value }

/-- The tape after a change, if the change can be made. -/
def change? : Change → Tape → Option Tape
  | .right, t => some t.moveRight
  | .left, t => t.moveLeft?
  | .write value, t => some (t.write value)
  | .clear, _ => some blank

theorem cells_right (t : Tape) :
    t.moveRight.cells = if t.cursor + 1 = t.cells.length then t.cells ++ [0] else t.cells := by
  obtain ⟨l, x, r⟩ := t
  cases r <;> simp [moveRight, cells, cursor]

@[simp] theorem cursor_right (t : Tape) : t.moveRight.cursor = t.cursor + 1 := by
  obtain ⟨l, x, r⟩ := t
  cases r <;> simp [moveRight, cursor]

theorem cells_left {t u : Tape} (h : t.moveLeft? = some u) : u.cells = t.cells := by
  obtain ⟨l, x, r⟩ := t
  cases l with
  | nil => simp [moveLeft?] at h
  | cons y l =>
    obtain rfl : ⟨l, y, x :: r⟩ = u := by simpa [moveLeft?] using h
    simp [cells]

theorem cursor_left {t u : Tape} (h : t.moveLeft? = some u) : t.cursor = u.cursor + 1 := by
  obtain ⟨l, x, r⟩ := t
  cases l with
  | nil => simp [moveLeft?] at h
  | cons y l =>
    obtain rfl : ⟨l, y, x :: r⟩ = u := by simpa [moveLeft?] using h
    simp [cursor]

theorem moveLeft?_eq_none_iff {t : Tape} : t.moveLeft? = none ↔ t.cursor = 0 := by
  obtain ⟨l, x, r⟩ := t
  cases l <;> simp [moveLeft?, cursor]

/-- A step to the right and back only leaves a new cell behind. -/
theorem moveLeft?_moveRight (t : Tape) :
    t.moveRight.moveLeft? = some (if t.right = [] then { t with right := [0] } else t) := by
  obtain ⟨l, x, r⟩ := t
  cases r <;> simp [moveRight, moveLeft?]

/-- A step to the left and back changes nothing. -/
theorem moveRight_of_moveLeft? {t u : Tape} (h : t.moveLeft? = some u) : u.moveRight = t := by
  obtain ⟨l, x, r⟩ := t
  cases l with
  | nil => simp [moveLeft?] at h
  | cons y l =>
    obtain rfl : ⟨l, y, x :: r⟩ = u := by simpa [moveLeft?] using h
    rfl

theorem cells_write (value : Cell) (t : Tape) : (t.write value).cells = t.cells.set t.cursor value := by
  simp [write, cells, cursor]

@[simp] theorem cursor_write (value : Cell) (t : Tape) : (t.write value).cursor = t.cursor := rfl

@[simp] theorem here_write (value : Cell) (t : Tape) : (t.write value).here = value := rfl

@[simp] theorem write_write (v w : Cell) (t : Tape) : (t.write v).write w = t.write w := rfl

@[simp] theorem write_here (t : Tape) : t.write t.here = t := rfl

end Tape

end Rewind
