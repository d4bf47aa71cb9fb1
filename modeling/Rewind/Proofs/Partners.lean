import Rewind.Proofs.Search
import Rewind.Proofs.Segments

/-!
# Partners of brackets

Two partners are the ends of a balanced segment, in every program, balanced as a whole or not.

- `matchingBracket_opening_iff` and `matchingBracket_closing_iff` describe the partner of an item in both directions,
  and `matchingBracket_symm` says that partners belong to each other;
- `Finds` says where a search ends and when it fails, and a search from a bracket fails exactly where that has no
  partner (`matchingBracket_eq_error_iff`);
- counting shows that a bracket has a partner (`exists_partner_of_closing`, `exists_partner_of_opening`), and in a
  balanced program every bracket has one (`exists_partner_of_balanced`).
-/

namespace Rewind

/-! ## Partners in a program -/

section Program

variable {program : List Item} {i j : Nat}

/-- The items strictly between two places are balanced. -/
structure Spans (program : List Item) (i j : Nat) : Prop where
  lt : i < j
  balanced : Balanced Item.bracket? ((program.take j).drop (i + 1))

section Around

variable {before between after : List Item} {x y : Item}

theorem spans_around_iff :
    Spans (before ++ x :: (between ++ y :: after)) before.length (before.length + 1 + between.length) ↔
      Balanced Item.bracket? between := by
  constructor
  · intro h
    have := h.balanced
    rwa [between_around] at this
  · intro h
    refine ⟨by omega, ?_⟩
    rwa [between_around]

/-- The partner of an opening bracket, with the program in its parts. -/
theorem matchingBracket_around_left (hx : x.bracket? = some .opening) (hy : y.bracket? = some .closing)
    (h : Balanced Item.bracket? between) :
    matchingBracket (before ++ x :: (between ++ y :: after)) before.length =
      .ok ((before.length + 1 + between.length : Nat) : Int) := by
  have hreach := Bracket.reach_opening_eq_some_iff.mpr ⟨_, y, after, rfl, rfl, hy, settles_zero_iff.mpr h⟩
  unfold matchingBracket
  rw [placeOf_natCast (by simp)]
  simp only [getElem?_around_left, Option.bind_some, hx, if_pos, itemsAhead, if_pos (Int.natCast_nonneg _)]
  rw [show (before ++ x :: (between ++ y :: after)).drop (before.length + 1) = between ++ y :: after by simp, hreach]
  simp

/-- The partner of an item that is no opening bracket, with the program in its parts. -/
theorem matchingBracket_around_right (hx : x.bracket? = some .opening) (hy : y.bracket? ≠ some .opening)
    (h : Balanced Item.bracket? between) :
    matchingBracket (before ++ x :: (between ++ y :: after)) (before.length + 1 + between.length : Nat) =
      .ok (before.length : Int) := by
  have hreach := Bracket.reach_opening_eq_some_iff.mpr ⟨between.reverse, x, before.reverse, rfl, rfl,
    Bracket.mirror_eq_some_iff.mpr hx, settles_zero_iff.mpr (balanced_mirror_reverse h)⟩
  rw [← Bracket.reach_closing] at hreach
  unfold matchingBracket
  rw [placeOf_natCast (by simp; omega)]
  simp only [getElem?_around_right, Option.bind_some, if_neg hy, itemsBehind, if_pos (Int.natCast_nonneg _)]
  rw [take_around, show (before ++ x :: between).reverse = between.reverse ++ x :: before.reverse by simp, hreach]
  simp
  omega

end Around

theorem bracket_at_iff {b : Bracket} : program[i]?.bind Item.bracket? = some b ↔
    ∃ x, program[i]? = some x ∧ x.bracket? = some b := Option.bind_eq_some_iff

theorem lt_length_of_bracket {b : Bracket} (h : program[i]?.bind Item.bracket? = some b) : i < program.length := by
  obtain ⟨x, hx, -⟩ := bracket_at_iff.mp h
  exact (List.getElem?_eq_some_iff.mp hx).1

/-- The partner of an opening bracket is the closing one at the end of a balanced segment. -/
theorem matchingBracket_opening_iff (hi : program[i]?.bind Item.bracket? = some .opening) :
    matchingBracket program i = .ok (j : Int) ↔
      Spans program i j ∧ program[j]?.bind Item.bracket? = some .closing := by
  obtain ⟨x, hx, hopening⟩ := bracket_at_iff.mp hi
  constructor
  · intro h
    obtain ⟨before, after, rfl, rfl⟩ := exists_around hx
    unfold matchingBracket at h
    rw [placeOf_natCast (by simp)] at h
    simp only [hi, if_pos, itemsAhead, if_pos (Int.natCast_nonneg _)] at h
    rw [show (before ++ x :: after).drop (before.length + 1) = after by simp] at h
    split at h
    · rename_i k hk
      obtain ⟨between, y, after, rfl, rfl, hy, hs⟩ := Bracket.reach_opening_eq_some_iff.mp hk
      obtain rfl : before.length + 1 + between.length = j := by have := Except.ok.inj h; omega
      refine ⟨spans_around_iff.mpr (settles_zero_iff.mp hs), ?_⟩
      rw [getElem?_around_right]
      exact hy
    · cases h
  · rintro ⟨hspans, hj⟩
    obtain ⟨y, hy, hclosing⟩ := bracket_at_iff.mp hj
    obtain ⟨before, between, after, rfl, rfl, rfl⟩ := exists_around_both hspans.lt hx hy
    exact matchingBracket_around_left hopening hclosing (spans_around_iff.mp hspans)

/-- The partner of anything else is the opening bracket at the beginning of a balanced segment. -/
theorem matchingBracket_closing_iff (hj : j < program.length)
    (hother : program[j]?.bind Item.bracket? ≠ some .opening) :
    matchingBracket program j = .ok (i : Int) ↔
      Spans program i j ∧ program[i]?.bind Item.bracket? = some .opening := by
  have hy : program[j]? = some program[j] := List.getElem?_eq_getElem hj
  generalize program[j] = y at hy
  rw [hy, Option.bind_some] at hother
  constructor
  · intro h
    obtain ⟨front, after, rfl, rfl⟩ := exists_around hy
    unfold matchingBracket at h
    rw [placeOf_natCast (by simp)] at h
    simp only [hy, Option.bind_some, if_neg hother, itemsBehind, if_pos (Int.natCast_nonneg _)] at h
    rw [List.take_left, Bracket.reach_closing] at h
    split at h
    · rename_i k hk
      obtain ⟨ys, x, zs, hsplit, rfl, hx, hs⟩ := Bracket.reach_opening_eq_some_iff.mp hk
      obtain ⟨before, rfl⟩ : ∃ before, zs = before.reverse := ⟨zs.reverse, by simp⟩
      obtain ⟨between, rfl⟩ : ∃ between, ys = between.reverse := ⟨ys.reverse, by simp⟩
      obtain rfl : front = before ++ x :: between := by
        rw [← List.reverse_reverse front, hsplit]
        simp
      have hlen : (before ++ x :: between).length = before.length + 1 + between.length := by simp; omega
      obtain rfl : before.length = i := by
        have := Except.ok.inj h
        rw [hlen, List.length_reverse] at this
        omega
      rw [hlen, show (before ++ x :: between) ++ y :: after = before ++ x :: (between ++ y :: after) by simp]
      refine ⟨spans_around_iff.mpr (balanced_mirror_reverse_iff.mp (settles_zero_iff.mp hs)), ?_⟩
      rw [getElem?_around_left]
      exact Bracket.mirror_eq_some_iff.mp hx
    · cases h
  · rintro ⟨hspans, hi⟩
    obtain ⟨x, hx, hopening⟩ := bracket_at_iff.mp hi
    obtain ⟨before, between, after, rfl, rfl, rfl⟩ := exists_around_both hspans.lt hx hy
    exact matchingBracket_around_right hopening hother (spans_around_iff.mp hspans)

/-- Partners belong to each other, and one of them opens what the other closes. -/
theorem matchingBracket_symm {b : Bracket} (hi : program[i]?.bind Item.bracket? = some b)
    (h : matchingBracket program i = .ok (j : Int)) :
    program[j]?.bind Item.bracket? = some b.other ∧ matchingBracket program j = .ok (i : Int) := by
  cases b with
  | opening =>
    obtain ⟨hspans, hj⟩ := (matchingBracket_opening_iff hi).mp h
    exact ⟨hj, (matchingBracket_closing_iff (lt_length_of_bracket hj) (by rw [hj]; simp)).mpr ⟨hspans, hi⟩⟩
  | closing =>
    obtain ⟨hspans, hj⟩ := (matchingBracket_closing_iff (lt_length_of_bracket hi) (by rw [hi]; simp)).mp h
    exact ⟨hj, (matchingBracket_opening_iff hj).mpr ⟨hspans, hi⟩⟩

/-! ## Where the search ends -/

/-- A search that fails names the place that it began at, with the bracket that it took the item there for. -/
theorem fault_of_matchingBracket (hi : i < program.length) {fault : Fault}
    (h : matchingBracket program i = .error fault) :
    fault = .unmatched (if program[i]?.bind Item.bracket? = some .opening then .opening else .closing) i := by
  unfold matchingBracket at h
  rw [placeOf_natCast hi] at h
  simp only at h
  split at h
  · rename_i hopening
    rw [if_pos hopening]
    split at h
    · cases h
    · exact (Except.error.inj h).symm
  · rename_i hother
    rw [if_neg hother]
    split at h
    · cases h
    · exact (Except.error.inj h).symm

/--
The search from a place finds the one place that is right, and where none is right it names the place that it began
at, as a bracket `b` without partner.
-/
structure Finds (program : List Item) (i : Nat) (b : Bracket) (right : Nat → Prop) : Prop where
  found (j : Int) : matchingBracket program i = .ok j ↔ ∃ k : Nat, j = k ∧ right k
  only {j k : Nat} : right j → right k → j = k
  missed (fault : Fault) : matchingBracket program i = .error fault ↔ fault = .unmatched b i ∧ ∀ k, ¬right k

/-- It is enough to know what the search finds. -/
theorem finds_of_iff {b : Bracket} {right : Nat → Prop} (hi : i < program.length)
    (hb : b = if program[i]?.bind Item.bracket? = some .opening then .opening else .closing)
    (h : ∀ j : Nat, matchingBracket program i = .ok (j : Int) ↔ right j) : Finds program i b right where
  found j := by
    constructor
    · intro hj
      obtain ⟨hnonneg, -⟩ := matchingBracket_lt_length hi hj
      obtain ⟨k, rfl⟩ := Int.eq_ofNat_of_zero_le hnonneg
      exact ⟨k, rfl, (h k).mp hj⟩
    · rintro ⟨k, rfl, hk⟩
      exact (h k).mpr hk
  only {j k} hj hk := Int.natCast_inj.mp (Except.ok.inj (((h j).mpr hj).symm.trans ((h k).mpr hk)))
  missed fault := by
    constructor
    · intro hfault
      refine ⟨by rw [hb, fault_of_matchingBracket hi hfault], fun k hk => ?_⟩
      cases hfault.symm.trans ((h k).mpr hk)
    · rintro ⟨rfl, none⟩
      cases hsearch : matchingBracket program i with
      | error fault => rw [hb, fault_of_matchingBracket hi hsearch]
      | ok j =>
        obtain ⟨hnonneg, -⟩ := matchingBracket_lt_length hi hsearch
        obtain ⟨k, rfl⟩ := Int.eq_ofNat_of_zero_le hnonneg
        exact absurd ((h k).mp hsearch) (none k)

/-- From an opening bracket the search finds the one that closes it. -/
theorem finds_closing (hi : program[i]?.bind Item.bracket? = some .opening) :
    Finds program i .opening fun j => Spans program i j ∧ program[j]?.bind Item.bracket? = some .closing :=
  finds_of_iff (lt_length_of_bracket hi) (if_pos hi).symm fun _ => matchingBracket_opening_iff hi

/-- From anything else it finds the bracket that a closing bracket there would close. -/
theorem finds_opening (hi : i < program.length) (hother : program[i]?.bind Item.bracket? ≠ some .opening) :
    Finds program i .closing fun j => Spans program j i ∧ program[j]?.bind Item.bracket? = some .opening :=
  finds_of_iff hi (if_neg hother).symm fun _ => matchingBracket_closing_iff hi hother

/-! ## Brackets without partner -/

/-- The items at two places are the brackets at the ends of a balanced segment. -/
structure Partners (program : List Item) (i j : Nat) : Prop where
  opening : program[i]?.bind Item.bracket? = some .opening
  closing : program[j]?.bind Item.bracket? = some .closing
  spans : Spans program i j

/-- The bracket `b` at a place has its partner at another one. -/
def Faces (program : List Item) : Bracket → Nat → Nat → Prop
  | .opening, i, j => Partners program i j
  | .closing, i, j => Partners program j i

/-- The search finds the partner of a bracket. -/
theorem matchingBracket_eq_ok_iff {b : Bracket} (hi : program[i]?.bind Item.bracket? = some b) :
    matchingBracket program i = .ok (j : Int) ↔ Faces program b i j := by
  cases b with
  | opening =>
    rw [matchingBracket_opening_iff hi]
    exact ⟨fun h => ⟨hi, h.2, h.1⟩, fun h => ⟨h.spans, h.closing⟩⟩
  | closing =>
    rw [matchingBracket_closing_iff (lt_length_of_bracket hi) (by simp [hi])]
    exact ⟨fun h => ⟨h.2, hi, h.1⟩, fun h => ⟨h.spans, h.opening⟩⟩

/-- The search fails exactly at a bracket that has no partner, and names it. -/
theorem matchingBracket_eq_error_iff {b : Bracket} (hi : program[i]?.bind Item.bracket? = some b) {fault : Fault} :
    matchingBracket program i = .error fault ↔ fault = .unmatched b i ∧ ∀ j, ¬Faces program b i j := by
  have hb : b = if program[i]?.bind Item.bracket? = some .opening then .opening else .closing := by
    cases b <;> simp [hi]
  exact (finds_of_iff (lt_length_of_bracket hi) hb fun _ => matchingBracket_eq_ok_iff hi).missed fault

/-! ## Brackets that have a partner -/

/-- A closing bracket has a partner unless the part up to it closes too much. -/
theorem exists_partner_of_closing (hi : program[i]?.bind Item.bracket? = some .closing)
    (hfront : 0 ≤ excess Item.bracket? (program.take (i + 1))) :
    ∃ j : Nat, matchingBracket program i = .ok (j : Int) := by
  obtain ⟨y, hy, hclosing⟩ := bracket_at_iff.mp hi
  obtain ⟨front, after, rfl, rfl⟩ := exists_around hy
  rw [List.take_length_add_append, List.take_succ_cons, List.take_zero, excess_append, excess_cons, excess_nil,
    hclosing] at hfront
  simp only [Bracket.weight] at hfront
  have hopen : 0 < excess Item.bracket? front := by omega
  obtain ⟨before, x, between, rfl, hx, hbetween⟩ := exists_opening_of_excess_pos hopen
  have hfound : matchingBracket (before ++ x :: (between ++ y :: after)) (before.length + 1 + between.length : Nat) =
      .ok (before.length : Int) := matchingBracket_around_right hx (by simp [hclosing]) hbetween
  refine ⟨before.length, ?_⟩
  rwa [show before ++ x :: between ++ y :: after = before ++ x :: (between ++ y :: after) by simp,
    show (before ++ x :: between).length = before.length + 1 + between.length by simp; omega]

/-- An opening bracket has a partner unless too much is open from it on. -/
theorem exists_partner_of_opening (hi : program[i]?.bind Item.bracket? = some .opening)
    (hrest : excess Item.bracket? (program.drop i) ≤ 0) : ∃ j : Nat, matchingBracket program i = .ok (j : Int) := by
  obtain ⟨x, hx, hopening⟩ := bracket_at_iff.mp hi
  obtain ⟨before, rest, rfl, rfl⟩ := exists_around hx
  rw [List.drop_left, excess_cons, hopening] at hrest
  simp only [Bracket.weight] at hrest
  have hclosed : excess Item.bracket? rest < 0 := by omega
  obtain ⟨between, y, after, rfl, hy, hbetween⟩ := exists_closing_of_excess_neg hclosed
  exact ⟨_, matchingBracket_around_left hopening hy hbetween⟩

/-! ## Balanced programs -/

/-- Balanced commands are a balanced program. -/
theorem balanced_commands {commands : List Command} (h : Balanced Command.bracket? commands) :
    Balanced Item.bracket? (commands.map .command) :=
  Balanced.map (f := Item.command) h

/-- In a balanced program every bracket has a partner. -/
theorem exists_partner_of_balanced {b : Bracket} (h : Balanced Item.bracket? program)
    (hi : program[i]?.bind Item.bracket? = some b) : ∃ j : Nat, matchingBracket program i = .ok (j : Int) := by
  cases b with
  | closing => exact exists_partner_of_closing hi (h.never_below _ (List.take_prefix _ _))
  | opening => exact exists_partner_of_opening hi (h.excess_drop_nonpos i)

end Program

end Rewind
