import Mathlib.Order.Bounds.Defs
import Rewind.Proofs.Checking
import Rewind.Proofs.Partners

/-!
# The check of a text agrees with the search for partners

The check reads a text once and keeps the places of open brackets, the search counts nested brackets in the program that
the text makes. A text passes the check exactly when the search succeeds from every bracket (`parse_agrees`), and the
bracket at fault is the first closing one that the search fails from, or else the last opening one
(`Culprit.isLeast_single`, `Culprit.isGreatest_single`).
-/

namespace Rewind

/-- At place `i` of a program there is a bracket `b` from which the search fails. -/
def Single (program : List Item) (b : Bracket) (i : Nat) : Prop :=
  program[i]?.bind Item.bracket? = some b ∧ ∃ fault, matchingBracket program i = .error fault

section Program

variable {program : List Item} {b : Bracket} {i p : Nat}

theorem Single.no_partner (h : Single program b i) : ¬∃ j : Nat, matchingBracket program i = .ok (j : Int) := by
  rintro ⟨j, hj⟩
  obtain ⟨-, fault, hfault⟩ := h
  cases hj.symm.trans hfault

/-! ## The bracket at fault has no partner -/

theorem single_of_balanced_before {ys zs : List Item} {y : Item} (hy : y.bracket? = some .closing)
    (balanced : Balanced Item.bracket? ys) : Single (ys ++ y :: zs) .closing ys.length := by
  have hp : (ys ++ y :: zs)[ys.length]?.bind Item.bracket? = some .closing := by simpa using hy
  refine ⟨hp, _, (matchingBracket_eq_error_iff hp).mpr ⟨rfl, fun j partners => ?_⟩⟩
  obtain ⟨x, hx, hopening⟩ := bracket_at_iff.mp partners.opening
  rw [List.getElem?_append_left partners.spans.lt] at hx
  obtain ⟨before, between, rfl, rfl⟩ := exists_around hx
  have hbetween := partners.spans.balanced
  rw [List.take_left, List.drop_length_add_append, List.drop_succ_cons, List.drop_zero] at hbetween
  exact balanced.not_balanced_after hopening hbetween

theorem single_of_balanced_after {ys zs : List Item} {y : Item} (hy : y.bracket? = some .opening)
    (balanced : Balanced Item.bracket? zs) : Single (ys ++ y :: zs) .opening ys.length := by
  have hp : (ys ++ y :: zs)[ys.length]?.bind Item.bracket? = some .opening := by simpa using hy
  refine ⟨hp, _, (matchingBracket_eq_error_iff hp).mpr ⟨rfl, fun j partners => ?_⟩⟩
  obtain ⟨x, hx, hclosing⟩ := bracket_at_iff.mp partners.closing
  obtain ⟨front, after, hsplit, rfl⟩ := exists_around hx
  obtain ⟨between, rfl, rfl⟩ := exists_around_later hsplit partners.spans.lt
  have hbetween := partners.spans.balanced
  rw [hsplit, List.take_left, List.drop_length_add_append, List.drop_succ_cons, List.drop_zero] at hbetween
  exact balanced.not_balanced_before hclosing hbetween

/-- A bracket at fault has no partner. -/
theorem Culprit.single (h : Culprit Item.bracket? program b p) : Single program b p := by
  cases h with
  | early split closing balanced =>
    subst split
    exact single_of_balanced_before closing balanced
  | late split opening _ balanced =>
    subst split
    exact single_of_balanced_after opening balanced

/-! ## Other brackets have one -/

/-- A closing bracket at fault is the first one that has no partner. -/
theorem Culprit.isLeast_single (h : Culprit Item.bracket? program .closing p) :
    IsLeast {i | Single program .closing i} p := by
  cases h with
  | @early ys zs y split closing balanced =>
    subst split
    refine ⟨single_of_balanced_before closing balanced, fun i single => ?_⟩
    by_cases hlater : ys.length ≤ i
    · exact hlater
    · have hfront := balanced.never_below _ (List.take_prefix (i + 1) ys)
      have hsame : (ys ++ y :: zs).take (i + 1) = ys.take (i + 1) := List.take_append_of_le_length (by omega)
      rw [← hsame] at hfront
      exact absurd (exists_partner_of_closing single.1 hfront) single.no_partner

/-- Where an opening bracket is at fault, every closing one has a partner. -/
theorem Culprit.not_single_closing (h : Culprit Item.bracket? program .opening p) (i : Nat) :
    ¬Single program .closing i := by
  intro single
  cases h with
  | late _ _ never_below =>
    have hfront := never_below _ (List.take_prefix (i + 1) program)
    exact single.no_partner (exists_partner_of_closing single.1 hfront)

/-- An opening bracket at fault is the last one that has no partner. -/
theorem Culprit.isGreatest_single (h : Culprit Item.bracket? program .opening p) :
    IsGreatest {i | Single program .opening i} p := by
  cases h with
  | @late ys zs y split opening never_below balanced =>
    subst split
    refine ⟨single_of_balanced_after opening balanced, fun i single => ?_⟩
    by_cases hearlier : i ≤ ys.length
    · exact hearlier
    · obtain ⟨d, rfl⟩ : ∃ d, i = ys.length + (d + 1) := ⟨i - ys.length - 1, by omega⟩
      have hrest : excess Item.bracket? ((ys ++ y :: zs).drop (ys.length + (d + 1))) ≤ 0 := by
        rw [List.drop_length_add_append, List.drop_succ_cons]
        exact balanced.excess_drop_nonpos d
      exact absurd (exists_partner_of_opening single.1 hrest) single.no_partner

end Program

/-! ## Texts and the programs that they make -/

/-- The program that the commands of a text make, whether its brackets pair off or not. -/
def written (source : String) : List Item := (source.toList.filterMap Command.ofChar?).map .command

/-- Of the commands of a text the one with index `i` stands at place `p`. -/
def StandsAt (text : List Char) (i p : Nat) : Prop :=
  (∃ c, text[p]?.bind Command.ofChar? = some c) ∧ ((text.take p).filterMap Command.ofChar?).length = i

theorem balanced_written {source : String} (h : Balanced bracketOfChar? source.toList) :
    Balanced Item.bracket? (written source) :=
  balanced_commands (balanced_filterMap_iff.mpr h)

/-- The bracket at fault in a text is the one at fault in the program that it makes. -/
theorem Culprit.written {source : String} {b : Bracket} {p : Nat} (h : Culprit bracketOfChar? source.toList b p) :
    ∃ i, StandsAt source.toList i p ∧ Culprit Item.bracket? (written source) b i := by
  obtain ⟨hcommand, culprit⟩ := Culprit.filterMap h
  have hlen : ((source.toList.take p).filterMap Command.ofChar?).length ≤
      (source.toList.filterMap Command.ofChar?).length := ((List.take_prefix p _).filterMap _).length_le
  have hitems : Culprit (fun c => (some (Item.command c)).bind Item.bracket?) _ b _ := culprit
  obtain ⟨-, hitems⟩ := hitems.filterMap
  rw [List.filterMap_eq_map', List.length_map, List.length_take_of_le hlen] at hitems
  exact ⟨_, ⟨hcommand, rfl⟩, hitems⟩

/--
A text is read exactly when the search finds a partner for each bracket of the program that it makes. When it is not
read, the bracket that is reported is the first closing one without partner, or, if every closing one has a partner,
the last opening one without.
-/
theorem parse_agrees (source : String) :
    ((∃ commands, parse source = .ok commands) ↔
        ∀ (i : Nat) (b : Bracket), (written source)[i]?.bind Item.bracket? = some b →
          ∃ j, matchingBracket (written source) i = .ok j) ∧
      ∀ fault, parse source = .error fault →
        ((∃ i, Single (written source) .closing i) →
            ∃ i p : Nat, IsLeast {i | Single (written source) .closing i} i ∧ StandsAt source.toList i p ∧
              fault = .unmatched .closing p) ∧
          ((∀ i, ¬Single (written source) .closing i) →
            ∃ i p : Nat, IsGreatest {i | Single (written source) .opening i} i ∧ StandsAt source.toList i p ∧
              fault = .unmatched .opening p) := by
  rcases parse_cases source with ⟨parsed, balanced⟩ | ⟨b, p, failed, culprit⟩
  · constructor
    · refine ⟨fun _ i b hi => ?_, fun _ => ⟨_, parsed⟩⟩
      obtain ⟨j, hj⟩ := exists_partner_of_balanced (balanced_written balanced) hi
      exact ⟨j, hj⟩
    · intro fault failed
      cases parsed.symm.trans failed
  · obtain ⟨i, stands, culprit⟩ := culprit.written
    constructor
    · constructor
      · rintro ⟨commands, parsed⟩
        cases parsed.symm.trans failed
      · intro partners
        obtain ⟨hi, fault, hfault⟩ := culprit.single
        obtain ⟨j, hj⟩ := partners i b hi
        cases hj.symm.trans hfault
    · intro fault hfault
      cases failed.symm.trans hfault
      cases b with
      | closing =>
        refine ⟨fun _ => ⟨i, p, culprit.isLeast_single, stands, rfl⟩, fun none => ?_⟩
        exact absurd culprit.single (none i)
      | opening =>
        refine ⟨?_, fun _ => ⟨i, p, culprit.isGreatest_single, stands, rfl⟩⟩
        rintro ⟨k, hk⟩
        exact absurd hk (culprit.not_single_closing k)

/-- Comments stand before and between brackets without partner; of two closing ones the first is reported. -/
theorem parse_agrees_stray :
    parse "a[]é]x][" = .error (.unmatched .closing 4) ∧
      (∃ i, Single (written "a[]é]x][") .closing i) ∧ IsLeast {i | Single (written "a[]é]x][") .closing i} 2 ∧
      StandsAt "a[]é]x][".toList 2 4 := by
  have failed : parse "a[]é]x][" = .error (.unmatched .closing 4) := rfl
  have single : ∃ i, Single (written "a[]é]x][") .closing i := ⟨2, rfl, _, rfl⟩
  obtain ⟨i, p, least, stands, hp⟩ := ((parse_agrees "a[]é]x][").2 _ failed).1 single
  cases hp
  obtain rfl : 2 = i := stands.2
  exact ⟨failed, single, least, stands⟩

end Rewind
