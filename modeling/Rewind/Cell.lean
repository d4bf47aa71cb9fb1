/-!
# Cells

A cell holds one byte. `Cell.ofInt?` admits the integers from 0 to 255 (`ofInt?_eq_some_iff`, `ofInt?_eq_none_iff`), and
`Cell.listOfInts?` lists of such integers (`listOfInts?_eq_some_iff`).
-/

namespace Rewind

/-- The content of one cell. -/
abbrev Cell := UInt8

namespace Cell

/-- The integer that a cell holds. -/
def value (c : Cell) : Int := (UInt8.toNat c : Int)

/-- The cell that holds an integer, if the integer is a byte. -/
def ofInt? (v : Int) : Option Cell := if 0 ≤ v ∧ v < 256 then some (UInt8.ofNat v.toNat) else none

/-- The cells that hold a list of integers, if all of them are bytes. -/
def listOfInts? (vs : List Int) : Option (List Cell) := vs.mapM ofInt?

theorem value_nonneg (c : Cell) : 0 ≤ value c := Int.natCast_nonneg _

theorem value_lt (c : Cell) : value c < 256 := by
  have := UInt8.toNat_lt c
  simp only [value]; omega

@[simp] theorem ofInt?_value (c : Cell) : ofInt? (value c) = some c := by
  rw [ofInt?, if_pos ⟨value_nonneg c, value_lt c⟩]
  simp [value]

theorem ofInt?_eq_none_iff {v : Int} : ofInt? v = none ↔ v < 0 ∨ 256 ≤ v := by
  unfold ofInt?
  split <;> simp <;> omega

theorem ofInt?_eq_some_iff {v : Int} {c : Cell} : ofInt? v = some c ↔ v = value c := by
  constructor
  · intro h
    unfold ofInt? at h
    split at h
    · obtain rfl := Option.some.inj h
      simp only [value, UInt8.toNat_ofNat']
      omega
    · cases h
  · rintro rfl
    exact ofInt?_value c

/-- Integers are admitted exactly when they are the values of cells. -/
theorem listOfInts?_eq_some_iff {vs : List Int} {cs : List Cell} : listOfInts? vs = some cs ↔ vs = cs.map value := by
  unfold listOfInts?
  induction vs generalizing cs with
  | nil => cases cs <;> simp
  | cons v vs ih =>
    cases cs with
    | nil => simp [List.mapM_cons, Option.bind_eq_some_iff]
    | cons c cs => simp [List.mapM_cons, Option.bind_eq_some_iff, ofInt?_eq_some_iff, ih]

end Cell

end Rewind
