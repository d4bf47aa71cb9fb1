import Rewind.Proofs.Search
import Rewind.Proofs.Segments
import Rewind.Source

/-!
# The bracket at fault

A list that is not balanced has a bracket at fault (`Culprit`): the first closing one that closes too much or, where
nothing closes too much, the last opening one that nothing closes. The check of a text finds it: `Checked` says what
the check can find from any position on, and `parse_cases` what that makes of a whole text. Comments only shift the
place of the bracket at fault (`Culprit.filterMap`, `parse_eq_ok_iff_commands`, `parse_fault_iff`).
-/

namespace Rewind

/-! ## The check from a position on -/

/-- What the check finds from position `here` on, with the places of the brackets that are open there. -/
inductive Checked (here : Nat) (opened : List Nat) (xs : List Char) : Except Fault Unit → Prop
  | passed (settles : Settles bracketOfChar? opened.length xs) : Checked here opened xs (.ok ())
  | early {k : Nat} (reached : Bracket.reach bracketOfChar? .opening opened.length xs = some k) :
    Checked here opened xs (.error (.unmatched .closing (here + k : Nat)))
  | late {ys zs : List Char} {y : Char}
    (unreached : Bracket.reach bracketOfChar? .opening opened.length xs = none) (split : xs = ys ++ y :: zs)
    (opening : bracketOfChar? y = some .opening) (balanced : Balanced bracketOfChar? zs) :
    Checked here opened xs (.error (.unmatched .opening (here + ys.length : Nat)))
  /-- What is left open was open before. -/
  | outer {j place : Nat} (unreached : Bracket.reach bracketOfChar? .opening opened.length xs = none)
    (found : opened[j]? = some place) (settles : Settles bracketOfChar? j xs) :
    Checked here opened xs (.error (.unmatched .opening place))

section Check

variable {here : Nat} {opened opened' : List Nat} {x : Char} {xs : List Char} {r : Except Fault Unit}

/-- One more character in front changes which brackets are open before the rest, and nothing else. -/
theorem Checked.cons
    (hreach : Bracket.reach bracketOfChar? .opening opened.length (x :: xs) =
      (Bracket.reach bracketOfChar? .opening opened'.length xs).map (· + 1))
    (hsettles : Settles bracketOfChar? opened.length (x :: xs) ↔ Settles bracketOfChar? opened'.length xs)
    (houter : ∀ {j place : Nat}, Bracket.reach bracketOfChar? .opening opened.length (x :: xs) = none →
      opened'[j]? = some place → Settles bracketOfChar? j xs →
        Checked here opened (x :: xs) (.error (.unmatched .opening place)))
    (h : Checked (here + 1) opened' xs r) : Checked here opened (x :: xs) r := by
  cases h with
  | passed settles => exact .passed (hsettles.mpr settles)
  | @early k reached =>
    rw [show here + 1 + k = here + (k + 1) by omega]
    exact .early (by rw [hreach, reached]; rfl)
  | @late ys zs y unreached split opening balanced =>
    rw [show here + 1 + ys.length = here + (x :: ys).length by rw [List.length_cons]; omega]
    exact .late (by rw [hreach, unreached]; rfl) (by rw [split]; rfl) opening balanced
  | outer unreached found settles => exact houter (by rw [hreach, unreached]; rfl) found settles

theorem checkBrackets_checked (here : Nat) (opened : List Nat) (xs : List Char) :
    Checked here opened xs (checkBrackets here opened xs) := by
  fun_induction checkBrackets here opened xs with
  | case1 => exact .passed (settles_nil_iff.mpr rfl)
  | case2 here place opened =>
    exact .outer (j := 0) rfl rfl (settles_nil_iff.mpr rfl)
  | case3 here opened x xs hx ih =>
    refine ih.cons (Bracket.reach_opening_cons_none hx) (settles_cons_none hx) fun unreached found settles => ?_
    exact .outer unreached found ((settles_cons_none hx).mpr settles)
  | case4 here opened x xs hx ih =>
    refine ih.cons (Bracket.reach_opening_cons_opening hx) (settles_cons_opening hx) ?_
    intro j place unreached found settles
    cases j with
    | zero =>
      -- The bracket that is left open is this one.
      obtain rfl : here = place := by simpa using found
      have late : Checked here opened (x :: xs) (.error (.unmatched .opening (here + ([] : List Char).length : Nat))) :=
        .late unreached rfl hx (settles_zero_iff.mp settles)
      exact late
    | succ j => exact .outer unreached found ((settles_cons_opening hx).mpr settles)
  | case5 here x xs hx => exact .early (k := 0) (Bracket.reach_opening_zero_cons_closing hx)
  | case6 here x xs place opened hx ih =>
    refine ih.cons (Bracket.reach_opening_succ_cons_closing hx) (settles_cons_closing hx) ?_
    intro j place' unreached found settles
    exact .outer (j := j + 1) unreached found ((settles_cons_closing hx).mpr settles)

end Check

/-! ## The bracket at fault in a list -/

section Culprit

variable {α : Type} {side : α → Option Bracket} {xs : List α}

/-- The bracket at fault in a list, with its place. -/
inductive Culprit (side : α → Option Bracket) (xs : List α) : Bracket → Nat → Prop
  /-- Before it everything was paired off. -/
  | early {ys zs : List α} {y : α} (split : xs = ys ++ y :: zs) (closing : side y = some .closing)
    (balanced : Balanced side ys) : Culprit side xs .closing ys.length
  /-- Nothing in the list closes too much, and after this bracket everything is paired off. -/
  | late {ys zs : List α} {y : α} (split : xs = ys ++ y :: zs) (opening : side y = some .opening)
    (never_below : ∀ part, part <+: xs → 0 ≤ excess side part) (balanced : Balanced side zs) :
    Culprit side xs .opening ys.length

theorem Culprit.not_balanced {b : Bracket} {p : Nat} (h : Culprit side xs b p) : ¬Balanced side xs := by
  intro balanced
  cases h with
  | early split closing before =>
    subst split
    exact balanced.not_balanced_before closing before
  | late split opening _ after =>
    subst split
    exact balanced.not_balanced_after opening after

/-- A closing bracket is at fault only where some part from the beginning closes too much. -/
theorem Culprit.exists_below {p : Nat} (h : Culprit side xs .closing p) :
    ∃ part, part <+: xs ∧ excess side part < 0 := by
  cases h with
  | @early ys zs y split closing balanced =>
    subst split
    refine ⟨ys ++ [y], ⟨zs, by simp⟩, ?_⟩
    rw [excess_append, balanced.settled, excess_cons, excess_nil, closing]
    decide

/-- Only one kind of bracket can be at fault. -/
theorem Culprit.bracket_unique {b b' : Bracket} {p p' : Nat} (h : Culprit side xs b p) (h' : Culprit side xs b' p') :
    b = b' := by
  have differ : ∀ {p p' : Nat}, Culprit side xs .closing p → ¬Culprit side xs .opening p' := by
    intro p p' early late
    obtain ⟨part, hpart, hbelow⟩ := early.exists_below
    cases late with
    | late _ _ never_below =>
      have := never_below part hpart
      omega
  cases b with
  | opening =>
    cases b' with
    | opening => rfl
    | closing => exact absurd h (differ h')
  | closing =>
    cases b' with
    | opening => exact absurd h' (differ h)
    | closing => rfl

/-- Items that stand for nothing only shift the place of the bracket at fault. -/
theorem Culprit.filterMap {β : Type} {f : β → Option α} {ys : List β} {b : Bracket} {p : Nat}
    (h : Culprit (fun y => (f y).bind side) ys b p) :
    (∃ x, ys[p]?.bind f = some x) ∧ Culprit side (ys.filterMap f) b ((ys.take p).filterMap f).length := by
  cases h with
  | @early before after y split closing balanced =>
    subst split
    obtain ⟨x, hx, hclosing⟩ := Option.bind_eq_some_iff.mp closing
    rw [List.take_left]
    exact ⟨⟨x, by simpa using hx⟩, .early (filterMap_around hx) hclosing (balanced_filterMap_iff.mpr balanced)⟩
  | @late before after y split opening never_below balanced =>
    subst split
    obtain ⟨x, hx, hopening⟩ := Option.bind_eq_some_iff.mp opening
    rw [List.take_left]
    exact ⟨⟨x, by simpa using hx⟩, .late (filterMap_around hx) hopening (never_below_filterMap_iff.mpr never_below)
      (balanced_filterMap_iff.mpr balanced)⟩

end Culprit

/-! ## Reading a text -/

/-- A balanced text is read, and of any other the bracket at fault is reported. -/
theorem parse_cases (source : String) :
    (parse source = .ok (source.toList.filterMap Command.ofChar?) ∧ Balanced bracketOfChar? source.toList) ∨
      ∃ b p, parse source = .error (.unmatched b (p : Nat)) ∧ Culprit bracketOfChar? source.toList b p := by
  have checked := checkBrackets_checked 0 [] source.toList
  unfold parse
  generalize checkBrackets 0 [] source.toList = r at checked
  cases checked with
  | passed settles => exact Or.inl ⟨rfl, settles_zero_iff.mp settles⟩
  | @early k reached =>
    obtain ⟨ys, y, zs, split, rfl, closing, settles⟩ := Bracket.reach_opening_eq_some_iff.mp reached
    refine Or.inr ⟨_, _, rfl, ?_⟩
    rw [Nat.zero_add]
    exact .early split closing (settles_zero_iff.mp settles)
  | late unreached split opening balanced =>
    refine Or.inr ⟨_, _, rfl, ?_⟩
    rw [Nat.zero_add]
    refine .late split opening (fun part hpart => ?_) balanced
    exact Bracket.reach_opening_eq_none_iff.mp unreached part hpart
  | outer _ found => cases found

/-- A text is read exactly when it is balanced, and what is read are its commands. -/
theorem parse_eq_ok_iff_balanced {source : String} {commands : List Command} : parse source = .ok commands ↔
    Balanced bracketOfChar? source.toList ∧ commands = source.toList.filterMap Command.ofChar? := by
  rcases parse_cases source with ⟨parsed, balanced⟩ | ⟨b, p, failed, culprit⟩
  · rw [parsed]
    constructor
    · intro h
      exact ⟨balanced, (Except.ok.inj h).symm⟩
    · rintro ⟨-, rfl⟩
      rfl
  · rw [failed]
    constructor
    · intro h
      cases h
    · rintro ⟨balanced, -⟩
      exact absurd balanced culprit.not_balanced

/-- Only the commands of a text decide whether it is read. -/
theorem parse_eq_ok_iff_commands {source : String} {commands : List Command} : parse source = .ok commands ↔
    Balanced Command.bracket? (source.toList.filterMap Command.ofChar?) ∧
      commands = source.toList.filterMap Command.ofChar? := by
  rw [parse_eq_ok_iff_balanced, balanced_filterMap_iff]
  rfl

theorem balanced_of_parse {source : String} {commands : List Command} (parsed : parse source = .ok commands) :
    Balanced Command.bracket? commands := by
  obtain ⟨balanced, rfl⟩ := parse_eq_ok_iff_commands.mp parsed
  exact balanced

/-- Only the commands of a text decide which kind of bracket is reported. -/
theorem parse_fault_iff {source : String} {b : Bracket} :
    (∃ p : Nat, parse source = .error (.unmatched b p)) ↔
      ∃ k, Culprit Command.bracket? (source.toList.filterMap Command.ofChar?) b k := by
  constructor
  · rintro ⟨p, hp⟩
    rcases parse_cases source with ⟨parsed, -⟩ | ⟨b', p', failed, culprit⟩
    · cases hp.symm.trans parsed
    · cases hp.symm.trans failed
      exact ⟨_, (Culprit.filterMap culprit).2⟩
  · rintro ⟨k, hk⟩
    rcases parse_cases source with ⟨-, balanced⟩ | ⟨b', p', failed, culprit⟩
    · exact absurd (balanced_filterMap_iff.mpr balanced) hk.not_balanced
    · obtain rfl := hk.bracket_unique (Culprit.filterMap culprit).2
      exact ⟨p', failed⟩

end Rewind
