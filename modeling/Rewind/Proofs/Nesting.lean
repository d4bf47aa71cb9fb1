import Rewind.Proofs.Partners

/-!
# How pairs of brackets nest

In any program, whatever brackets are left over in it, the search pairs brackets off. Two pairs lie one inside the
other or one beside the other (`Partners.not_crossing`), and the search agrees with itself from both ends of a pair
(`matchingBracket_nesting`).
-/

namespace Rewind

variable {program : List Item} {i j i' j' : Nat}

/-- A pair of brackets does not end in the midst of a pair that began inside it. -/
theorem Partners.not_crossing (outer : Partners program i j) (inner : Partners program i' j') (hi : i < i')
    (hi' : i' < j) : ¬j < j' := by
  intro hj
  obtain ⟨x, hx, hopening⟩ := bracket_at_iff.mp inner.opening
  obtain ⟨y, hy, -⟩ := bracket_at_iff.mp outer.closing
  -- Between the second opening bracket and the first closing one too much is closed for the second pair.
  have houter := outer.spans.balanced
  rw [between_eq_append hi hi' hx] at houter
  have hfront := houter.never_below _ (List.prefix_append _ _)
  have htotal := houter.settled
  rw [excess_append, excess_cons, hopening] at htotal
  have hinner := inner.spans.balanced.never_below _ ⟨_, (between_eq_append hi' hj hy).symm⟩
  simp only [Bracket.weight] at htotal
  omega

/-- At place `i` there is a bracket, and from there the search finds the one at place `j`. -/
def Paired (program : List Item) (i j : Nat) : Prop :=
  (∃ b, program[i]?.bind Item.bracket? = some b) ∧ matchingBracket program i = .ok (j : Int)

theorem Paired.symm (h : Paired program i j) : Paired program j i := by
  obtain ⟨⟨b, hi⟩, hsearch⟩ := h
  obtain ⟨hj, hback⟩ := matchingBracket_symm hi hsearch
  exact ⟨⟨b.other, hj⟩, hback⟩

/-- The first bracket of a pair is the opening one. -/
theorem Paired.partners (h : Paired program i j) (hij : i < j) : Partners program i j := by
  obtain ⟨⟨b, hi⟩, hsearch⟩ := h
  have hfaces := (matchingBracket_eq_ok_iff hi).mp hsearch
  cases b with
  | opening => exact hfaces
  | closing =>
    have := hfaces.spans.lt
    omega

/--
In any program the search from an opening bracket finds the closing one at the end of a balanced segment, the search
from anything else finds the opening one at the beginning of a balanced segment, and each fails exactly where there is
none. The pairs are the same from both ends and do not cross.
-/
theorem matchingBracket_nesting (program : List Item) :
    (∀ i < program.length, program[i]?.bind Item.bracket? = some .opening →
        Finds program i .opening fun j => Spans program i j ∧ program[j]?.bind Item.bracket? = some .closing) ∧
      (∀ i < program.length, program[i]?.bind Item.bracket? ≠ some .opening →
        Finds program i .closing fun j => Spans program j i ∧ program[j]?.bind Item.bracket? = some .opening) ∧
      (∀ i j, Paired program i j → Paired program j i) ∧
      ∀ i j i' j', Paired program i j → Paired program i' j' → ¬(i < i' ∧ i' < j ∧ j < j') := by
  refine ⟨fun i _ hi => finds_closing hi, fun i hi hother => finds_opening hi hother, fun i j h => h.symm, ?_⟩
  rintro i j i' j' h h' ⟨hi, hi', hj⟩
  have outer := h.partners (by omega)
  have inner := h'.partners (by omega)
  exact outer.not_crossing inner hi hi' hj

/--
Between brackets without partner: a pair is found from both of its ends, and a custom instruction that looks like a
bracket is none, but the search from it finds one.
-/
theorem matchingBracket_nesting_left_over :
    let program : List Item :=
      [.command .closeLoop, .command .openLoop, .custom "]" [] [], .command .openLoop, .command .closeLoop]
    (∀ k, ¬(Spans program k 0 ∧ program[k]?.bind Item.bracket? = some .opening)) ∧
      (∀ k, ¬(Spans program 1 k ∧ program[k]?.bind Item.bracket? = some .closing)) ∧
      matchingBracket program 2 = .ok 1 ∧ Spans program 1 2 ∧ ¬Paired program 1 2 ∧
      Paired program 3 4 ∧ Paired program 4 3 := by
  intro program
  obtain ⟨fromOpening, fromOther, paired, -⟩ := matchingBracket_nesting program
  have first := fromOther 0 (by decide) (by decide)
  have second := fromOpening 1 (by decide) rfl
  have custom := fromOther 2 (by decide) (by decide)
  obtain ⟨k, hk, hspans, -⟩ := (custom.found 1).mp rfl
  obtain rfl : k = 1 := by omega
  have lone : ¬Paired program 1 2 := fun h => by cases h.2
  have pair : Paired program 3 4 := ⟨⟨.opening, rfl⟩, rfl⟩
  exact ⟨((first.missed _).mp rfl).2, ((second.missed _).mp rfl).2, rfl, hspans, lone, pair, paired 3 4 pair⟩

end Rewind
