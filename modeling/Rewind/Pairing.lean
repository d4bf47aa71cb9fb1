import Rewind.Program

/-!
# Pairs of brackets in a program

`matchingBracket` finds the partner of the bracket at an index, in any program, balanced or not, by counting nested
brackets away from it. Negative indices count from the end of the program. A search forward from a negative index
goes on from the last instruction to the first one, and a search backward from there finds nothing.

- `matchingBracket_lt_length`: a partner found from an index of the program is an index of the program;
- `unmatched_of_matchingBracket`: from there the search fails only where there is no partner.
-/

namespace Rewind

/-- An index that some program could have: a signed integer of 64 bits. -/
def isPosition (index : Int) : Bool := -9223372036854775808 ≤ index && index < 9223372036854775808

/-- The place among `n` instructions that an index means, negative ones counting from the end. -/
def placeOf (n : Nat) (index : Int) : Except Fault Nat :=
  if 0 ≤ index ∧ index < n then .ok index.toNat
  else if index < 0 ∧ -(n : Int) ≤ index then .ok (index + n).toNat
  else if isPosition index then .error .noInstruction
  else .error .farPosition

/-- The items that a search forward from an index meets, in order. -/
def itemsAhead (program : List Item) (index : Int) (place : Nat) : List Item :=
  if 0 ≤ index then program.drop (place + 1) else program.drop (place + 1) ++ program

/-- The items that a search backward from an index meets, in order. -/
def itemsBehind (program : List Item) (index : Int) (place : Nat) : List Item :=
  if 0 ≤ index then (program.take place).reverse else []

/--
The index of the partner of the bracket at `index`. Whatever is not an opening bracket is taken for a closing one.
-/
def matchingBracket (program : List Item) (index : Int) : Except Fault Int :=
  match placeOf program.length index with
  | .error fault => .error fault
  | .ok place =>
    if program[place]?.bind Item.bracket? = some .opening then
      match Bracket.opening.reach Item.bracket? 0 (itemsAhead program index place) with
      | some k => .ok (index + 1 + k)
      | none => .error (.unmatched .opening index)
    else
      match Bracket.closing.reach Item.bracket? 0 (itemsBehind program index place) with
      | some k => .ok (index - 1 - k)
      | none => .error (.unmatched .closing index)

/-- The partners found from all indices of a program and from the one before and the one after them. -/
def matchingTable (program : List Item) : List (Int × Except Fault Int) :=
  (List.range (2 * program.length + 2)).map fun (k : Nat) =>
    let index : Int := k - program.length - 1
    (index, matchingBracket program index)

theorem placeOf_natCast {n i : Nat} (h : i < n) : placeOf n i = .ok i := by
  unfold placeOf
  rw [if_pos (by omega)]
  rfl

theorem placeOf_sub_length {n i : Nat} (h : i < n) : placeOf n ((i : Int) - n) = .ok i := by
  unfold placeOf
  rw [if_neg (by omega), if_pos (by omega)]
  exact congrArg Except.ok (by omega)

/-- A partner found from an index of the program is an index of the program. -/
theorem matchingBracket_lt_length {program : List Item} {i : Nat} (hi : i < program.length) {j : Int}
    (h : matchingBracket program i = .ok j) : 0 ≤ j ∧ j < program.length := by
  unfold matchingBracket at h
  rw [placeOf_natCast hi] at h
  simp only at h
  split at h
  · split at h
    · rename_i k hk
      obtain rfl : (i : Int) + 1 + k = j := by simpa using h
      have := Bracket.reach_lt_length hk
      simp only [itemsAhead, if_pos (Int.natCast_nonneg i), List.length_drop] at this
      omega
    · simp at h
  · split at h
    · rename_i k hk
      obtain rfl : (i : Int) - 1 - k = j := by simpa using h
      have := Bracket.reach_lt_length hk
      simp only [itemsBehind, if_pos (Int.natCast_nonneg i), List.length_reverse, List.length_take] at this
      omega
    · simp at h

/-- From an index of the program the search for a partner fails only where there is none. -/
theorem unmatched_of_matchingBracket {program : List Item} {i : Nat} (hi : i < program.length) {fault : Fault}
    (h : matchingBracket program i = .error fault) : ∃ b, fault = .unmatched b i := by
  unfold matchingBracket at h
  rw [placeOf_natCast hi] at h
  simp only at h
  split at h
  · split at h
    · cases h
    · exact ⟨_, (Except.error.inj h).symm⟩
  · split at h
    · cases h
    · exact ⟨_, (Except.error.inj h).symm⟩

end Rewind
