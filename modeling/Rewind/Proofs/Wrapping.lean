import Mathlib.Order.Bounds.Defs
import Rewind.Proofs.Checking
import Rewind.Proofs.Partners

/-!
# Searches from negative indices

An index that counts from the end of a program means the same item as the index from its beginning, but the search
from there is another one. Backward it meets nothing. Forward it meets what comes after the item and then the whole
program from its beginning.

- `Bracket.reach_opening_eq_some_iff_isLeast` finds the end of a search by counting: the first place up to which one
  bracket more is closed than was open (`Overruns`);
- `Bracket.reach_opening_append_of_none`: a search through two lists goes on in the second one with the brackets that
  the first one leaves open;
- `FindsAround` says where the search from a bracket without partner ends, once it has started over at the front;
- `matchingBracket_from_end` puts this together.
-/

namespace Rewind

/-! ## The end of a search, by counting -/

section Counting

variable {α : Type} {side : α → Option Bracket} {xs : List α} {depth k : Nat}

/-- Up to place `k` the list closes `depth + 1` brackets more than it opens. -/
def Overruns (side : α → Option Bracket) (depth : Int) (xs : List α) (k : Nat) : Prop :=
  k < xs.length ∧ excess side (xs.take (k + 1)) = -(depth + 1)

instance (depth : Int) (xs : List α) (k : Nat) : Decidable (Overruns side depth xs k) :=
  inferInstanceAs (Decidable (_ ∧ _))

namespace Bracket

theorem isLeast_of_reach_opening (h : reach side .opening depth xs = some k) :
    IsLeast {k | Overruns side depth xs k} k := by
  obtain ⟨before, y, after, rfl, rfl, hy, hs⟩ := reach_opening_eq_some_iff.mp h
  refine ⟨⟨by simp, ?_⟩, fun j ⟨_, hj⟩ => ?_⟩
  · rw [List.take_length_add_append, List.take_succ_cons, List.take_zero, excess_append, hs.settled, excess_cons,
      excess_nil, hy]
    simp only [weight]
    omega
  · by_cases hlater : before.length ≤ j
    · exact hlater
    · -- A part that ends before the place closes no more than was open.
      have hpart := hs.never_below _ (List.take_prefix (j + 1) before)
      rw [List.take_append_of_le_length (by omega)] at hj
      omega

/-- A search finds nothing exactly where no place is overrun. -/
theorem reach_opening_eq_none_iff_overruns : reach side .opening depth xs = none ↔ ∀ k, ¬Overruns side depth xs k := by
  constructor
  · rintro h k ⟨-, hk⟩
    have := reach_opening_eq_none_iff.mp h _ (List.take_prefix (k + 1) xs)
    omega
  · intro h
    cases hreach : reach side .opening depth xs with
    | none => rfl
    | some k => exact absurd (isLeast_of_reach_opening hreach).1 (h k)

/-- A search ends at the first place that is overrun. -/
theorem reach_opening_eq_some_iff_isLeast :
    reach side .opening depth xs = some k ↔ IsLeast {k | Overruns side depth xs k} k := by
  refine ⟨isLeast_of_reach_opening, fun least => ?_⟩
  cases hreach : reach side .opening depth xs with
  | none => exact absurd least.1 (reach_opening_eq_none_iff_overruns.mp hreach k)
  | some j =>
    have found := isLeast_of_reach_opening hreach
    rw [Nat.le_antisymm (found.2 least.1) (least.2 found.1)]

/-! ## Searches through two lists -/

/-- A search goes on in a second list with what the first one leaves open. -/
theorem reach_opening_append_of_none {opened : Nat} (h : reach side .opening depth xs = none)
    (hopened : (opened : Int) = depth + excess side xs) (ys : List α) :
    reach side .opening depth (xs ++ ys) = (reach side .opening opened ys).map (xs.length + ·) := by
  induction xs generalizing depth with
  | nil =>
    obtain rfl : opened = depth := by
      rw [excess_nil] at hopened
      omega
    simp
  | cons x xs ih =>
    -- The first item only changes how much is open before the rest.
    have later : ∀ {d : Nat}, (reach side .opening d xs).map (· + 1) = none →
        (opened : Int) = d + excess side xs →
        (reach side .opening d (xs ++ ys)).map (· + 1) =
          (reach side .opening opened ys).map ((x :: xs).length + ·) := by
      intro d hrest hd
      rw [ih (Option.map_eq_none_iff.mp hrest) hd, Option.map_map]
      congr 1
      funext k
      simp only [Function.comp_apply, List.length_cons]
      omega
    rw [excess_cons] at hopened
    rw [List.cons_append]
    rcases hx : side x with _ | _ | _
    · rw [hx] at hopened
      rw [reach_opening_cons_none hx] at h ⊢
      exact later h (by simpa [weight] using hopened)
    · rw [hx] at hopened
      rw [reach_opening_cons_opening hx] at h ⊢
      exact later h (by simp only [weight] at hopened; omega)
    · rw [hx] at hopened
      cases depth with
      | zero => simp [reach_opening_zero_cons_closing hx] at h
      | succ depth =>
        rw [reach_opening_succ_cons_closing hx] at h ⊢
        exact later h (by simp only [weight] at hopened; omega)

end Bracket

end Counting

/-! ## Negative indices -/

variable {program : List Item} {i : Nat}

/-- The search from an opening bracket, by whichever index it is called. -/
theorem matchingBracket_of_opening {index : Int} (hplace : placeOf program.length index = .ok i)
    (hi : program[i]?.bind Item.bracket? = some .opening) :
    matchingBracket program index =
      match Bracket.opening.reach Item.bracket? 0 (itemsAhead program index i) with
      | some k => .ok (index + 1 + k)
      | none => .error (.unmatched .opening index) := by
  unfold matchingBracket
  rw [hplace]
  exact if_pos hi

/-- From the beginning the search forward meets what comes after the item. -/
theorem matchingBracket_natCast (hi : program[i]?.bind Item.bracket? = some .opening) :
    matchingBracket program i =
      match Bracket.opening.reach Item.bracket? 0 (program.drop (i + 1)) with
      | some k => .ok (i + 1 + k)
      | none => .error (.unmatched .opening i) := by
  have ahead : itemsAhead program i i = program.drop (i + 1) := if_pos (Int.natCast_nonneg i)
  rw [← ahead]
  exact matchingBracket_of_opening (placeOf_natCast (lt_length_of_bracket hi)) hi

/-- From the end it meets the whole program besides. -/
theorem matchingBracket_sub_length (hi : program[i]?.bind Item.bracket? = some .opening) :
    matchingBracket program (i - program.length) =
      match Bracket.opening.reach Item.bracket? 0 (program.drop (i + 1) ++ program) with
      | some k => .ok (i - program.length + 1 + k)
      | none => .error (.unmatched .opening (i - program.length)) := by
  have hlt := lt_length_of_bracket hi
  have ahead : itemsAhead program (i - program.length) i = program.drop (i + 1) ++ program := if_neg (by omega)
  rw [← ahead]
  exact matchingBracket_of_opening (placeOf_sub_length hlt) hi

/-- Whatever is no opening bracket meets nothing from the end. -/
theorem matchingBracket_sub_length_of_ne (hi : i < program.length)
    (hother : program[i]?.bind Item.bracket? ≠ some .opening) :
    matchingBracket program (i - program.length) = .error (.unmatched .closing (i - program.length)) := by
  unfold matchingBracket
  rw [placeOf_sub_length hi]
  simp only [if_neg hother, itemsBehind]
  rw [if_neg (by omega)]
  rfl

/-- A partner that is found from the beginning is found from the end, as an index that counts from there. -/
theorem matchingBracket_sub_length_of_ok (hi : program[i]?.bind Item.bracket? = some .opening) {j : Int}
    (h : matchingBracket program i = .ok j) :
    matchingBracket program (i - program.length) = .ok (j - program.length) := by
  rw [matchingBracket_natCast hi] at h
  rw [matchingBracket_sub_length hi]
  cases hreach : Bracket.opening.reach Item.bracket? 0 (program.drop (i + 1)) with
  | none =>
    rw [hreach] at h
    cases h
  | some k =>
    rw [hreach] at h
    obtain rfl : (i : Int) + 1 + k = j := Except.ok.inj h
    rw [Bracket.reach_opening_append hreach]
    exact congrArg Except.ok (by omega)

/--
The search from the end, from a bracket without partner at place `i`. What is left open behind the bracket has to be
closed at the front of the program, and one bracket more.
-/
structure FindsAround (program : List Item) (i : Nat) : Prop where
  opened : 0 ≤ excess Item.bracket? (program.drop (i + 1))
  found (r : Int) : matchingBracket program (i - program.length) = .ok r ↔
    ∃ k : Nat, r = k ∧
      IsLeast {k | Overruns Item.bracket? (excess Item.bracket? (program.drop (i + 1))) program k} k
  missed (fault : Fault) : matchingBracket program (i - program.length) = .error fault ↔
    fault = .unmatched .opening (i - program.length) ∧
      ∀ k, ¬Overruns Item.bracket? (excess Item.bracket? (program.drop (i + 1))) program k

/-- Without a partner behind it, the bracket takes what is left open there to the front of the program. -/
theorem matchingBracket_sub_length_of_single (hi : program[i]?.bind Item.bracket? = some .opening)
    (single : ∀ j, ¬Partners program i j) :
    ∃ d : Nat, excess Item.bracket? (program.drop (i + 1)) = d ∧
      matchingBracket program (i - program.length) =
        match Bracket.opening.reach Item.bracket? d program with
        | some k => .ok (k : Int)
        | none => .error (.unmatched .opening (i - program.length)) := by
  have hlt := lt_length_of_bracket hi
  have failed := (matchingBracket_eq_error_iff hi).mpr ⟨rfl, single⟩
  have unreached : Bracket.opening.reach Item.bracket? 0 (program.drop (i + 1)) = none := by
    rw [matchingBracket_natCast hi] at failed
    split at failed
    · cases failed
    · assumption
  have hopened := Bracket.le_excess_of_reach_eq_none unreached
  obtain ⟨d, hd⟩ := Int.eq_ofNat_of_zero_le (show 0 ≤ excess Item.bracket? (program.drop (i + 1)) by omega)
  have hleft : (d : Int) = (0 : Nat) + excess Item.bracket? (program.drop (i + 1)) := by omega
  have around := Bracket.reach_opening_append_of_none unreached hleft program
  refine ⟨d, hd, ?_⟩
  rw [matchingBracket_sub_length hi, around, List.length_drop]
  cases Bracket.opening.reach Item.bracket? d program with
  | none => rfl
  | some k =>
    have hlast : (i : Int) - program.length + 1 + (program.length - (i + 1) + k : Nat) = k := by omega
    exact congrArg Except.ok hlast

theorem findsAround (hi : program[i]?.bind Item.bracket? = some .opening) (single : ∀ j, ¬Partners program i j) :
    FindsAround program i := by
  obtain ⟨d, hd, search⟩ := matchingBracket_sub_length_of_single hi single
  refine ⟨by omega, fun r => ?_, fun fault => ?_⟩
  · rw [search, hd]
    cases hreach : Bracket.opening.reach Item.bracket? d program with
    | none =>
      refine iff_of_false (by simp) ?_
      rintro ⟨k, -, least⟩
      exact Bracket.reach_opening_eq_none_iff_overruns.mp hreach k least.1
    | some k =>
      constructor
      · intro h
        exact ⟨k, (Except.ok.inj h).symm, Bracket.reach_opening_eq_some_iff_isLeast.mp hreach⟩
      · rintro ⟨k', rfl, least⟩
        obtain rfl := Option.some.inj (hreach.symm.trans (Bracket.reach_opening_eq_some_iff_isLeast.mpr least))
        rfl
  · rw [search, hd]
    cases hreach : Bracket.opening.reach Item.bracket? d program with
    | none =>
      have nowhere := Bracket.reach_opening_eq_none_iff_overruns.mp hreach
      constructor
      · intro h
        exact ⟨(Except.error.inj h).symm, nowhere⟩
      · rintro ⟨rfl, -⟩
        rfl
    | some k =>
      refine iff_of_false (by simp) ?_
      rintro ⟨-, nowhere⟩
      exact nowhere k (Bracket.reach_opening_eq_some_iff_isLeast.mp hreach).1

/--
From a negative index the search finds nothing unless it starts at an opening bracket. From one that has a partner it
finds this partner, counted from the end. From one without it goes on at the front of the program, and ends at the first
place up to which one bracket more is closed than was left open behind it, or fails because there is none. In a
program that was parsed every opening bracket is of the first sort.
-/
theorem matchingBracket_from_end (program : List Item) :
    (∀ i < program.length, program[i]?.bind Item.bracket? ≠ some .opening →
        matchingBracket program (i - program.length) = .error (.unmatched .closing (i - program.length))) ∧
      (∀ i < program.length, program[i]?.bind Item.bracket? = some .opening →
        (∀ j, matchingBracket program i = .ok j →
            matchingBracket program (i - program.length) = .ok (j - program.length)) ∧
          ((∀ j, ¬Partners program i j) → FindsAround program i)) ∧
      ∀ source commands, parse source = .ok commands → program = commands.map .command →
        ∀ i : Nat, program[i]?.bind Item.bracket? = some .opening →
          ∃ j : Nat, j < program.length ∧ matchingBracket program i = .ok (j : Int) ∧
            matchingBracket program (i - program.length) = .ok (j - program.length) := by
  refine ⟨fun i hi hother => matchingBracket_sub_length_of_ne hi hother, fun i _ hi => ?_, ?_⟩
  · exact ⟨fun j hj => matchingBracket_sub_length_of_ok hi hj, fun single => findsAround hi single⟩
  · intro source commands parsed hprogram i hi
    have balanced : Balanced Item.bracket? program := by
      rw [hprogram]
      exact balanced_commands (balanced_of_parse parsed)
    obtain ⟨j, hj⟩ := exists_partner_of_balanced balanced hi
    obtain ⟨-, hlt⟩ := matchingBracket_lt_length (lt_length_of_bracket hi) hj
    exact ⟨j, by omega, hj, matchingBracket_sub_length_of_ok hi hj⟩

/--
Of two brackets left open the first is closed at the front by the second closing bracket there. A custom instruction that
looks like one does not count, and the search from it finds nothing.
-/
theorem matchingBracket_from_end_left_over :
    let program : List Item :=
      [.custom "]" [] [], .command .closeLoop, .command .closeLoop, .command .openLoop, .command .openLoop,
        .command .openLoop, .command .closeLoop]
    matchingBracket program (-7) = .error (.unmatched .closing (-7)) ∧
      matchingBracket program (-2) = .ok (-1) ∧ (∀ j, ¬Partners program 3 j) ∧
      matchingBracket program (-4) = .ok 2 ∧ IsLeast {k | Overruns Item.bracket? 1 program k} 2 ∧
      parse "[[]]" = .ok [.openLoop, .openLoop, .closeLoop, .closeLoop] ∧
      matchingBracket ([.openLoop, .openLoop, .closeLoop, .closeLoop].map .command) (-3) = .ok (-2) := by
  intro program
  have parsed : parse "[[]]" = .ok [.openLoop, .openLoop, .closeLoop, .closeLoop] := rfl
  have single : ∀ j, ¬Partners program 3 j := ((matchingBracket_eq_error_iff (b := .opening) rfl).mp rfl).2
  obtain ⟨fromOther, fromOpening, -⟩ := matchingBracket_from_end program
  have paired := (fromOpening 5 (by decide) rfl).1 6 rfl
  obtain ⟨k, hk, least⟩ := (((fromOpening 3 (by decide) rfl).2 single).found 2).mp rfl
  obtain rfl : k = 2 := by omega
  obtain ⟨j, -, hj, hback⟩ := (matchingBracket_from_end _).2.2 _ _ parsed rfl 1 rfl
  obtain rfl : 2 = j := Int.natCast_inj.mp (Except.ok.inj hj)
  exact ⟨fromOther 0 (by decide) (by decide), paired, single, rfl, least, parsed, hback⟩

end Rewind
