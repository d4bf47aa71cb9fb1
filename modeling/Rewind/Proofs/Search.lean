import Rewind.Balance
import Rewind.Pairing

/-!
# The search for a partner

The counting search ends at the first bracket that closes too much.

- `Settles` is balance with some brackets still open before the list; it is shifted by one item at a time
  (`settles_cons_opening`, `settles_cons_closing`, `settles_cons_none`);
- `Bracket.reach_opening_eq_some_iff` says where the forward search stops, and `Bracket.reach_opening_eq_none_iff`
  what a list is like in which it does not;
- the backward search is the forward one for mirrored brackets (`Bracket.reach_closing`), and a list is balanced from
  one end exactly when it is balanced from the other (`balanced_mirror_reverse_iff`);
- a list that closes more than it opens, or the other way round, has a bracket without partner in it
  (`exists_closing_of_excess_neg`, `exists_opening_of_excess_pos`).
-/

namespace Rewind

variable {α : Type} {side : α → Option Bracket}

/-! ## Lists that close open brackets -/

/-- The list closes `depth` brackets more than it opens, and no part from its beginning closes more. -/
structure Settles (side : α → Option Bracket) (depth : Nat) (xs : List α) : Prop where
  never_below : ∀ ys, ys <+: xs → -(depth : Int) ≤ excess side ys
  settled : excess side xs = -(depth : Int)

theorem settles_zero_iff {xs : List α} : Settles side 0 xs ↔ Balanced side xs :=
  ⟨fun h => ⟨h.never_below, h.settled⟩, fun h => ⟨h.never_below, h.settled⟩⟩

theorem settles_nil_iff {depth : Nat} : Settles side depth ([] : List α) ↔ depth = 0 := by
  constructor
  · intro h
    have := h.settled
    rw [excess_nil] at this
    omega
  · rintro rfl
    exact settles_zero_iff.mpr balanced_nil

/-- The first item shifts the depth by its weight. -/
theorem settles_cons_iff {depth : Nat} {x : α} {xs : List α} :
    Settles side depth (x :: xs) ↔
      (∀ ys, ys <+: xs → -(depth : Int) ≤ Bracket.weight (side x) + excess side ys) ∧
        Bracket.weight (side x) + excess side xs = -(depth : Int) := by
  constructor
  · intro h
    exact ⟨fun ys hys => h.never_below (x :: ys) (List.cons_prefix_cons.mpr ⟨rfl, hys⟩), h.settled⟩
  · rintro ⟨hbelow, hsettled⟩
    refine ⟨fun ys hys => ?_, hsettled⟩
    cases ys with
    | nil => rw [excess_nil]; omega
    | cons y ys =>
      obtain ⟨rfl, htail⟩ := List.cons_prefix_cons.mp hys
      exact hbelow ys htail

theorem settles_cons_opening {depth : Nat} {x : α} {xs : List α} (hx : side x = some .opening) :
    Settles side depth (x :: xs) ↔ Settles side (depth + 1) xs := by
  rw [settles_cons_iff, hx]
  simp only [Bracket.weight]
  constructor
  · rintro ⟨hbelow, hsettled⟩
    exact ⟨fun ys hys => by have := hbelow ys hys; omega, by omega⟩
  · intro h
    exact ⟨fun ys hys => by have := h.never_below ys hys; omega, by have := h.settled; omega⟩

theorem settles_cons_closing {depth : Nat} {x : α} {xs : List α} (hx : side x = some .closing) :
    Settles side (depth + 1) (x :: xs) ↔ Settles side depth xs := by
  rw [settles_cons_iff, hx]
  simp only [Bracket.weight]
  constructor
  · rintro ⟨hbelow, hsettled⟩
    exact ⟨fun ys hys => by have := hbelow ys hys; omega, by omega⟩
  · intro h
    exact ⟨fun ys hys => by have := h.never_below ys hys; omega, by have := h.settled; omega⟩

/-- A closing bracket in front closes too much when nothing is open. -/
theorem not_settles_zero_cons_closing {x : α} {xs : List α} (hx : side x = some .closing) :
    ¬Settles side 0 (x :: xs) := by
  intro h
  have := (settles_cons_iff.mp h).1 [] List.nil_prefix
  rw [hx] at this
  simp [Bracket.weight] at this

theorem settles_cons_none {depth : Nat} {x : α} {xs : List α} (hx : side x = none) :
    Settles side depth (x :: xs) ↔ Settles side depth xs := by
  rw [settles_cons_iff, hx]
  simp only [Bracket.weight, Int.zero_add]
  exact ⟨fun h => ⟨h.1, h.2⟩, fun h => ⟨h.never_below, h.settled⟩⟩

/-! ## The search -/

namespace Bracket

theorem reach_opening_cons_opening {depth : Nat} {x : α} {xs : List α} (hx : side x = some .opening) :
    reach side .opening depth (x :: xs) = (reach side .opening (depth + 1) xs).map (· + 1) := by
  rw [reach.eq_def]
  simp [hx]

theorem reach_opening_cons_none {depth : Nat} {x : α} {xs : List α} (hx : side x = none) :
    reach side .opening depth (x :: xs) = (reach side .opening depth xs).map (· + 1) := by
  rw [reach.eq_def]
  simp [hx]

theorem reach_opening_zero_cons_closing {x : α} {xs : List α} (hx : side x = some .closing) :
    reach side .opening 0 (x :: xs) = some 0 := by
  rw [reach.eq_def]
  simp [hx, other]

theorem reach_opening_succ_cons_closing {depth : Nat} {x : α} {xs : List α} (hx : side x = some .closing) :
    reach side .opening (depth + 1) (x :: xs) = (reach side .opening depth xs).map (· + 1) := by
  rw [reach.eq_def]
  simp [hx, other]

/-- The search splits the list at the first bracket that closes too much. -/
theorem reach_opening_eq_some_iff {xs : List α} : ∀ {depth k : Nat},
    reach side .opening depth xs = some k ↔
      ∃ ys y zs, xs = ys ++ y :: zs ∧ ys.length = k ∧ side y = some .closing ∧ Settles side depth ys := by
  induction xs with
  | nil => intro depth k; simp [reach]
  | cons x xs ih =>
    intro depth k
    -- A first item that does not end the search goes to the front of what is found in the rest.
    have later : ∀ {d : Nat}, (∀ ys, Settles side depth (x :: ys) ↔ Settles side d ys) →
        (¬(depth = 0 ∧ side x = some .closing)) →
        ((reach side .opening d xs).map (· + 1) = some k ↔
          ∃ ys y zs, x :: xs = ys ++ y :: zs ∧ ys.length = k ∧ side y = some .closing ∧ Settles side depth ys) := by
      intro d hshift hgoes
      rw [Option.map_eq_some_iff]
      constructor
      · rintro ⟨j, hj, rfl⟩
        obtain ⟨ys, y, zs, rfl, rfl, hy, hs⟩ := ih.mp hj
        exact ⟨x :: ys, y, zs, rfl, rfl, hy, (hshift ys).mpr hs⟩
      · rintro ⟨ys, y, zs, heq, rfl, hy, hs⟩
        cases ys with
        | nil =>
          obtain ⟨rfl, -⟩ := List.cons.inj heq
          exact absurd ⟨settles_nil_iff.mp hs, hy⟩ hgoes
        | cons x' ys =>
          obtain ⟨rfl, htail⟩ := List.cons.inj heq
          exact ⟨ys.length, ih.mpr ⟨ys, y, zs, htail, rfl, hy, (hshift ys).mp hs⟩, rfl⟩
    rcases hx : side x with _ | _ | _
    · rw [reach_opening_cons_none hx]
      exact later (fun ys => settles_cons_none hx) (by simp [hx])
    · rw [reach_opening_cons_opening hx]
      exact later (fun ys => settles_cons_opening hx) (by simp [hx])
    · cases depth with
      | succ depth =>
        rw [reach_opening_succ_cons_closing hx]
        exact later (fun ys => settles_cons_closing hx) (by simp)
      | zero =>
        rw [reach_opening_zero_cons_closing hx]
        constructor
        · intro h
          obtain rfl := Option.some.inj h
          exact ⟨[], x, xs, rfl, rfl, hx, settles_nil_iff.mpr rfl⟩
        · rintro ⟨ys, y, zs, heq, rfl, -, hs⟩
          cases ys with
          | nil => rfl
          | cons x' ys =>
            obtain ⟨rfl, -⟩ := List.cons.inj heq
            exact absurd hs (not_settles_zero_cons_closing hx)

/-- A search that finds nothing has met at most `depth` more closing brackets than opening ones. -/
theorem le_excess_of_reach_eq_none {xs : List α} : ∀ {depth : Nat},
    reach side .opening depth xs = none → -(depth : Int) ≤ excess side xs := by
  induction xs with
  | nil => intro depth _; rw [excess_nil]; omega
  | cons x xs ih =>
    intro depth h
    rw [excess_cons]
    rcases hx : side x with _ | _ | _
    · rw [reach_opening_cons_none hx, Option.map_eq_none_iff] at h
      have := ih h
      simp only [weight]
      omega
    · rw [reach_opening_cons_opening hx, Option.map_eq_none_iff] at h
      have := ih h
      simp only [weight]
      omega
    · cases depth with
      | zero => simp [reach_opening_zero_cons_closing hx] at h
      | succ depth =>
        rw [reach_opening_succ_cons_closing hx, Option.map_eq_none_iff] at h
        have := ih h
        simp only [weight]
        omega

/-- What is found in a part from the beginning is found in the whole. -/
theorem reach_opening_append {depth k : Nat} {xs : List α} (h : reach side .opening depth xs = some k)
    (ys : List α) : reach side .opening depth (xs ++ ys) = some k := by
  obtain ⟨before, y, after, rfl, rfl, hy, hs⟩ := reach_opening_eq_some_iff.mp h
  exact reach_opening_eq_some_iff.mpr ⟨before, y, after ++ ys, by simp, rfl, hy, hs⟩

/-- A search finds nothing exactly where no part from the beginning closes too much. -/
theorem reach_opening_eq_none_iff {depth : Nat} {xs : List α} :
    reach side .opening depth xs = none ↔ ∀ ys, ys <+: xs → -(depth : Int) ≤ excess side ys := by
  constructor
  · intro h ys hys
    apply le_excess_of_reach_eq_none
    cases hreach : reach side .opening depth ys with
    | none => rfl
    | some k =>
      obtain ⟨zs, rfl⟩ := hys
      cases h.symm.trans (reach_opening_append hreach zs)
  · intro h
    cases hreach : reach side .opening depth xs with
    | none => rfl
    | some k =>
      obtain ⟨ys, y, zs, rfl, -, hy, hs⟩ := reach_opening_eq_some_iff.mp hreach
      have hpart := h (ys ++ [y]) ⟨zs, by simp⟩
      rw [excess_append, hs.settled, excess_cons, excess_nil, hy] at hpart
      simp only [weight] at hpart
      omega

/-! ## Mirrored lists -/

/-- The bracket that an item is when the list is read from its end. -/
def mirror (side : α → Option Bracket) (x : α) : Option Bracket := (side x).map Bracket.other

@[simp] theorem mirror_eq_some_iff {x : α} {b : Bracket} : mirror side x = some b ↔ side x = some b.other := by
  unfold mirror
  rcases side x with _ | (_ | _) <;> cases b <;> simp [other]

theorem weight_mirror (x : α) : weight (mirror side x) = -weight (side x) := by
  unfold mirror
  rcases side x with _ | (_ | _) <;> rfl

/-- The backward search is the forward one for mirrored brackets. -/
theorem reach_closing {xs : List α} : ∀ {depth : Nat},
    reach side .closing depth xs = reach (mirror side) .opening depth xs := by
  induction xs with
  | nil => intro depth; rfl
  | cons x xs ih =>
    intro depth
    simp only [reach, mirror_eq_some_iff, other, ih]

end Bracket

theorem excess_mirror (xs : List α) : excess (Bracket.mirror side) xs = -excess side xs := by
  induction xs with
  | nil => rfl
  | cons x xs ih =>
    rw [excess_cons, excess_cons, Bracket.weight_mirror, ih]
    omega

theorem excess_reverse (xs : List α) : excess side xs.reverse = excess side xs := by
  induction xs with
  | nil => rfl
  | cons x xs ih =>
    rw [List.reverse_cons, excess_append, ih]
    simp only [excess_cons, excess_nil]
    omega

/-- What is balanced from one end is balanced from the other. -/
theorem balanced_mirror_reverse {xs : List α} (h : Balanced side xs) : Balanced (Bracket.mirror side) xs.reverse where
  never_below ys hys := by
    obtain ⟨zs, hzs⟩ := List.reverse_suffix.mpr hys
    rw [List.reverse_reverse] at hzs
    have hfront := h.never_below zs ⟨_, hzs⟩
    have htotal := h.settled
    rw [← hzs, excess_append, excess_reverse] at htotal
    rw [excess_mirror]
    omega
  settled := by rw [excess_mirror, excess_reverse, h.settled]; rfl

theorem balanced_mirror_reverse_iff {xs : List α} :
    Balanced (Bracket.mirror side) xs.reverse ↔ Balanced side xs := by
  refine ⟨fun h => ?_, balanced_mirror_reverse⟩
  have h' := balanced_mirror_reverse h
  have hside : Bracket.mirror (Bracket.mirror side) = side := by
    funext x
    simp only [Bracket.mirror, Option.map_map]
    rcases side x with _ | (_ | _) <;> rfl
  rwa [hside, List.reverse_reverse] at h'

/-! ## Brackets that a count shows -/

/-- A list that closes more than it opens closes a bracket before it. -/
theorem exists_closing_of_excess_neg {xs : List α} (h : excess side xs < 0) :
    ∃ ys y zs, xs = ys ++ y :: zs ∧ side y = some .closing ∧ Balanced side ys := by
  cases hreach : Bracket.reach side .opening 0 xs with
  | none =>
    have := Bracket.le_excess_of_reach_eq_none hreach
    omega
  | some k =>
    obtain ⟨ys, y, zs, hsplit, -, hy, hs⟩ := Bracket.reach_opening_eq_some_iff.mp hreach
    exact ⟨ys, y, zs, hsplit, hy, settles_zero_iff.mp hs⟩

/-- A list that opens more than it closes opens a bracket after it. -/
theorem exists_opening_of_excess_pos {xs : List α} (h : 0 < excess side xs) :
    ∃ ys y zs, xs = ys ++ y :: zs ∧ side y = some .opening ∧ Balanced side zs := by
  have hmirror : excess (Bracket.mirror side) xs.reverse < 0 := by
    rw [excess_mirror, excess_reverse]
    omega
  obtain ⟨zs, y, ys, hsplit, hy, hzs⟩ := exists_closing_of_excess_neg hmirror
  refine ⟨ys.reverse, y, zs.reverse, ?_, Bracket.mirror_eq_some_iff.mp hy, ?_⟩
  · rw [← List.reverse_reverse xs, hsplit]
    simp
  · rwa [← balanced_mirror_reverse_iff, List.reverse_reverse]

/-- No part at the end of a balanced list opens more than it closes. -/
theorem Balanced.excess_drop_nonpos {xs : List α} (h : Balanced side xs) (k : Nat) :
    excess side (xs.drop k) ≤ 0 := by
  have hfront := h.never_below _ (List.take_prefix k xs)
  have htotal := h.settled
  rw [← List.take_append_drop k xs, excess_append] at htotal
  omega

/-- After an opening bracket of a balanced list more is closed than opened. -/
theorem Balanced.excess_after_neg {ys zs : List α} {y : α} (h : Balanced side (ys ++ y :: zs))
    (hy : side y = some .opening) : excess side zs < 0 := by
  have htotal := h.settled
  have hfront := h.never_below ys (List.prefix_append _ _)
  rw [excess_append, excess_cons, hy] at htotal
  simp only [Bracket.weight] at htotal
  omega

/-- Before a closing bracket of a balanced list more is opened than closed. -/
theorem Balanced.excess_before_pos {ys zs : List α} {y : α} (h : Balanced side (ys ++ y :: zs))
    (hy : side y = some .closing) : 0 < excess side ys := by
  have hfront := h.never_below (ys ++ [y]) ⟨zs, by simp⟩
  rw [excess_append, excess_cons, excess_nil, hy] at hfront
  simp only [Bracket.weight] at hfront
  omega

theorem Balanced.not_balanced_after {ys zs : List α} {y : α} (h : Balanced side (ys ++ y :: zs))
    (hy : side y = some .opening) : ¬Balanced side zs := by
  intro hzs
  have hafter := h.excess_after_neg hy
  rw [hzs.settled] at hafter
  exact absurd hafter (Int.lt_irrefl 0)

theorem Balanced.not_balanced_before {ys zs : List α} {y : α} (h : Balanced side (ys ++ y :: zs))
    (hy : side y = some .closing) : ¬Balanced side ys := by
  intro hys
  have hbefore := h.excess_before_pos hy
  rw [hys.settled] at hbefore
  exact absurd hbefore (Int.lt_irrefl 0)

/-! ## Items that stand for others -/

/-- Items that stand for others are balanced as those are. -/
theorem excess_map {β : Type} (f : β → α) (ys : List β) : excess side (ys.map f) = excess (side ∘ f) ys := by
  induction ys with
  | nil => rfl
  | cons y ys ih => rw [List.map_cons, excess_cons, excess_cons, ih]; rfl

theorem Balanced.map {β : Type} {f : β → α} {ys : List β} (h : Balanced (side ∘ f) ys) :
    Balanced side (ys.map f) where
  never_below zs hzs := by
    obtain ⟨ws, hws, rfl⟩ := List.prefix_map_iff.mp hzs
    rw [excess_map]
    exact h.never_below ws hws
  settled := by rw [excess_map, h.settled]

/-- Items that stand for others or for nothing count as those do. -/
theorem excess_filterMap {β : Type} (f : β → Option α) (ys : List β) :
    excess side (ys.filterMap f) = excess (fun y => (f y).bind side) ys := by
  induction ys with
  | nil => rfl
  | cons y ys ih =>
    rw [excess_cons, ← ih]
    cases hy : f y with
    | none => simp [List.filterMap_cons_none hy, Bracket.weight]
    | some x => simp [List.filterMap_cons_some hy]

theorem never_below_filterMap_iff {β : Type} {f : β → Option α} {ys : List β} :
    (∀ part, part <+: ys.filterMap f → 0 ≤ excess side part) ↔
      ∀ part, part <+: ys → 0 ≤ excess (fun y => (f y).bind side) part := by
  constructor
  · intro h part hpart
    rw [← excess_filterMap]
    exact h _ (List.prefix_filterMap_iff.mpr ⟨part, hpart, rfl⟩)
  · intro h part hpart
    obtain ⟨zs, hzs, rfl⟩ := List.prefix_filterMap_iff.mp hpart
    rw [excess_filterMap]
    exact h zs hzs

theorem balanced_filterMap_iff {β : Type} {f : β → Option α} {ys : List β} :
    Balanced side (ys.filterMap f) ↔ Balanced (fun y => (f y).bind side) ys := by
  constructor
  · intro h
    exact ⟨never_below_filterMap_iff.mp h.never_below, by rw [← excess_filterMap, h.settled]⟩
  · intro h
    exact ⟨never_below_filterMap_iff.mpr h.never_below, by rw [excess_filterMap, h.settled]⟩

end Rewind
