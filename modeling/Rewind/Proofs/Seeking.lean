import Mathlib.Order.Lattice.Nat
import Rewind.Machine.Navigation
import Rewind.Pointer.Rank

/-!
# Seeking a symbol

A seek leads to the nearest instruction with a symbol, strictly ahead of the pointer.

- The searches of a pointer find the least such index after its rank and the greatest before it
  (`Pointer.seek?_eq_some_iff`, `Pointer.seek?_eq_none_iff`);
- `Machine.Sought` lists the outcomes of a seek, each with the condition on which it comes about
  (`Machine.seek_eq_iff`);
- a seek repeated from the other end visits `Machine.places`, all the places of the symbol in a row
  (`Machine.visits_ahead`), and a seek back from a place of the symbol undoes a seek (`Machine.seek_opposite`).

The two directions share these statements; `Direction.Before` says which of two places comes first on the way.
-/

namespace Rewind

open Rewind.Action

/-! ## Directions -/

namespace Direction

/-- The other way. -/
def opposite : Direction → Direction
  | next => previous
  | previous => next

/-- Going this way, the first place is passed before the second. -/
def Before : Direction → Int → Int → Prop
  | next, a, b => a < b
  | previous, a, b => b < a

/-- The nearest of some indices that all lie ahead. -/
def Nearest : Direction → Set Nat → Nat → Prop
  | next => IsLeast
  | previous => IsGreatest

/-- The pointer from which there is no way on. -/
def limit : Direction → Pointer Nat
  | next => .finish
  | previous => .start

/-- The fault of going on from there. -/
def exhausted : Direction → Fault
  | next => .pastEnd
  | previous => .beforeStart

variable {d : Direction} {a b c : Int}

theorem opposite_before : d.opposite.Before a b ↔ d.Before b a := by cases d <;> rfl

theorem not_before_self : ¬d.Before a a := by cases d <;> simp [Before]

theorem Before.trans (h : d.Before a b) (h' : d.Before b c) : d.Before a c := by
  cases d <;> simp only [Before] at * <;> omega

theorem nearest_iff {s : Set Nat} {i : Nat} : d.Nearest s i ↔ i ∈ s ∧ ∀ j ∈ s, ¬d.Before j i := by
  cases d <;> simp [Nearest, Before, IsLeast, IsGreatest, lowerBounds, upperBounds]

theorem Nearest.unique {s : Set Nat} {i j : Nat} (h : d.Nearest s i) (h' : d.Nearest s j) : i = j := by
  cases d with
  | next => exact IsLeast.unique h h'
  | previous => exact IsGreatest.unique h h'

end Direction

/-! ## Searches -/

namespace Pointer

variable {α : Type} {want : α → Bool} {program : List α} {p : Pointer Nat} {n i : Nat} {d : Direction}

theorem indexAfter_le_iff (hi : i < n) : p.indexAfter n ≤ i ↔ p.rank n < i := by
  cases p <;> simp only [indexAfter, rank] <;> omega

theorem lt_indicesBefore_iff (hi : i < n) : i < p.indicesBefore n ↔ i < p.rank n := by
  cases p <;> simp only [indicesBefore, rank] <;> omega

/-- The nearest item with a property, in either direction. -/
def seek? (d : Direction) (want : α → Bool) (program : List α) (p : Pointer Nat) : Option Nat :=
  match d with
  | .next => p.seekForward? want program
  | .previous => p.seekBackward? want program

/-- The indices ahead of a pointer at which the items have a property. -/
def ahead (d : Direction) (want : α → Bool) (program : List α) (p : Pointer Nat) : Set Nat :=
  {i | d.Before (p.rank program.length) i ∧ ∃ h : i < program.length, want program[i]}

theorem seekForward?_eq_some_iff :
    p.seekForward? want program = some i ↔ IsLeast (p.ahead .next want program) i := by
  simp only [seekForward?, Option.map_eq_some_iff, List.findIdx?_eq_some_iff_getElem, List.length_drop,
    List.getElem_drop]
  constructor
  · rintro ⟨k, ⟨hk, hwant, hbefore⟩, rfl⟩
    have hlt : p.indexAfter program.length + k < program.length := by omega
    refine ⟨⟨(indexAfter_le_iff hlt).mp (Nat.le_add_right ..), hlt, hwant⟩, fun j ⟨hafter, hj, hwantj⟩ => ?_⟩
    have hfirst := (indexAfter_le_iff hj).mpr hafter
    obtain ⟨l, rfl⟩ := Nat.exists_eq_add_of_le hfirst
    by_contra hlt
    exact hbefore l (by omega) hwantj
  · rintro ⟨⟨hafter, hi, hwant⟩, hleast⟩
    have hfirst := (indexAfter_le_iff hi).mpr hafter
    obtain ⟨k, rfl⟩ := Nat.exists_eq_add_of_le hfirst
    refine ⟨k, ⟨by omega, hwant, fun j hj hwantj => ?_⟩, rfl⟩
    have hlt : p.indexAfter program.length + j < program.length := by omega
    have := hleast ⟨(indexAfter_le_iff hlt).mp (Nat.le_add_right ..), hlt, hwantj⟩
    omega

theorem indicesBefore_le (hp : p.InRange n) : p.indicesBefore n ≤ n := by
  cases p with
  | start => exact Nat.zero_le n
  | on i => exact Nat.le_of_lt hp
  | finish => exact Nat.le_refl n

theorem seekBackward?_eq_some_iff (hp : p.InRange program.length) :
    p.seekBackward? want program = some i ↔ IsGreatest (p.ahead .previous want program) i := by
  have hle := indicesBefore_le hp
  have hpassed : (program.take (p.indicesBefore program.length)).length = p.indicesBefore program.length :=
    List.length_take_of_le hle
  simp only [seekBackward?, Option.map_eq_some_iff, List.findIdx?_eq_some_iff_getElem, List.length_reverse,
    List.getElem_reverse, List.getElem_take, hpassed]
  constructor
  · rintro ⟨k, ⟨hk, hwant, hbefore⟩, rfl⟩
    have hlt : p.indicesBefore program.length - 1 - k < program.length := by omega
    refine ⟨⟨(lt_indicesBefore_iff hlt).mp (by omega), hlt, hwant⟩, fun j ⟨hafter, hj, hwantj⟩ => ?_⟩
    have hlast := (lt_indicesBefore_iff hj).mpr hafter
    obtain ⟨l, rfl⟩ : ∃ l, j = p.indicesBefore program.length - 1 - l :=
      ⟨p.indicesBefore program.length - 1 - j, by omega⟩
    by_contra hlt
    exact hbefore l (by omega) hwantj
  · rintro ⟨⟨hafter, hi, hwant⟩, hgreatest⟩
    have hlast := (lt_indicesBefore_iff hi).mpr hafter
    obtain ⟨k, hk, rfl⟩ : ∃ k < p.indicesBefore program.length, i = p.indicesBefore program.length - 1 - k :=
      ⟨p.indicesBefore program.length - 1 - i, by omega, by omega⟩
    refine ⟨k, ⟨hk, hwant, fun j hj hwantj => ?_⟩, rfl⟩
    have hlt : p.indicesBefore program.length - 1 - j < program.length := by omega
    have := hgreatest ⟨(lt_indicesBefore_iff hlt).mp (by omega), hlt, hwantj⟩
    omega

theorem seek?_eq_some_iff (hp : p.InRange program.length) :
    p.seek? d want program = some i ↔ d.Nearest (p.ahead d want program) i := by
  cases d with
  | next => exact seekForward?_eq_some_iff
  | previous => exact seekBackward?_eq_some_iff hp

/-- Of the indices ahead of a pointer, if there are any, one is the nearest. -/
theorem exists_nearest (h : (p.ahead d want program).Nonempty) : ∃ i, d.Nearest (p.ahead d want program) i := by
  cases d with
  | next => exact ⟨_, Nat.sInf_mem h, fun _ => Nat.sInf_le⟩
  | previous =>
    have hbound : BddAbove (p.ahead .previous want program) :=
      ⟨program.length, fun i ⟨_, hi, _⟩ => Nat.le_of_lt hi⟩
    exact ⟨_, Nat.sSup_mem h hbound, fun _ => le_csSup hbound⟩

theorem seek?_eq_none_iff (hp : p.InRange program.length) :
    p.seek? d want program = none ↔ p.ahead d want program = ∅ := by
  constructor
  · intro h
    by_contra hne
    obtain ⟨i, hi⟩ := exists_nearest (Set.nonempty_iff_ne_empty.mpr hne)
    rw [(seek?_eq_some_iff hp).mpr hi] at h
    cases h
  · intro h
    cases hseek : p.seek? d want program with
    | none => rfl
    | some i =>
      have hmem := (Direction.nearest_iff.mp ((seek?_eq_some_iff hp).mp hseek)).1
      rw [h] at hmem
      exact hmem.elim

end Pointer

namespace Machine

variable {m n : Machine} {symbol : String} {d : Direction} {i : Nat}

/-- Seeks the symbol in a direction. -/
def seek : Direction → String → Action Unit
  | .next => seekForward
  | .previous => seekBackward

/-- The instruction at an index has a symbol. -/
def Holds (m : Machine) (symbol : String) (i : Nat) : Prop := m.program[i]?.map Item.symbol = some symbol

instance (m : Machine) (symbol : String) (i : Nat) : Decidable (m.Holds symbol i) :=
  inferInstanceAs (Decidable (_ = _))

/-- All the places of a symbol in the program. -/
def places (m : Machine) (symbol : String) : List Nat := (List.range m.program.length).filter (m.Holds symbol)

/-- The places of a symbol that lie ahead of the pointer. -/
def ahead (m : Machine) (symbol : String) (d : Direction) : Set Nat :=
  {i | d.Before (m.pointer.rank m.program.length) i ∧ m.Holds symbol i}

/-- What a seek comes to, and when. -/
inductive Sought (m : Machine) (symbol : String) (d : Direction) : Outcome Unit → Prop
  | ended (limit : m.pointer = d.limit) : Sought m symbol d ⟨.error d.exhausted, m, []⟩
  | found {i : Nat} (nearest : d.Nearest (m.ahead symbol d) i) :
    Sought m symbol d ⟨.ok (), { m with pointer := .on i }, []⟩
  | missed (inside : m.pointer ≠ d.limit) (nowhere : m.ahead symbol d = ∅) :
    Sought m symbol d ⟨.error (.notFound symbol d), m, []⟩

theorem holds_iff : m.Holds symbol i ↔ ∃ h : i < m.program.length, m.program[i].symbol == symbol := by
  simp [Holds, List.getElem?_eq_some_iff]

theorem Holds.lt_length (h : m.Holds symbol i) : i < m.program.length := (holds_iff.mp h).1

theorem ahead_eq : m.ahead symbol d = m.pointer.ahead d (fun item => item.symbol == symbol) m.program := by
  ext i
  simp only [ahead, Pointer.ahead, Set.mem_ofPred_eq, holds_iff]

theorem seek_apply (d : Direction) (symbol : String) (m : Machine) :
    seek d symbol m =
      if m.pointer = d.limit then
        ⟨.error d.exhausted, m, []⟩
      else
        m.movedTo (.notFound symbol d)
          ((m.pointer.seek? d (fun item => item.symbol == symbol) m.program).map .on) := by
  cases d with
  | next => exact seekForward_apply symbol m
  | previous => exact seekBackward_apply symbol m

theorem ahead_limit (limit : m.pointer = d.limit) : m.ahead symbol d = ∅ := by
  refine Set.eq_empty_of_forall_notMem fun i ⟨hbefore, holds⟩ => ?_
  have := holds.lt_length
  rw [limit] at hbefore
  cases d <;> simp only [Direction.limit, Direction.Before, Pointer.rank] at hbefore <;> omega

theorem seek_sought (wellFormed : m.WellFormed) (symbol : String) (d : Direction) :
    m.Sought symbol d (seek d symbol m) := by
  rw [seek_apply]
  split
  · rename_i limit
    exact .ended limit
  · rename_i inside
    cases h : m.pointer.seek? d (fun item => item.symbol == symbol) m.program with
    | none =>
      refine .missed inside ?_
      rw [ahead_eq]
      exact (Pointer.seek?_eq_none_iff wellFormed).mp h
    | some i =>
      refine .found (i := i) ?_
      rw [ahead_eq]
      exact (Pointer.seek?_eq_some_iff wellFormed).mp h

theorem Sought.unique {o o' : Outcome Unit} (h : m.Sought symbol d o) (h' : m.Sought symbol d o') : o = o' := by
  -- Where there is nothing ahead, nothing is nearest.
  have nothing : ∀ {i}, m.ahead symbol d = ∅ → ¬d.Nearest (m.ahead symbol d) i := by
    intro i hempty nearest
    have hmem := (Direction.nearest_iff.mp nearest).1
    rw [hempty] at hmem
    exact hmem
  cases h with
  | ended limit =>
    cases h' with
    | ended => rfl
    | found nearest => exact absurd nearest (nothing (ahead_limit limit))
    | missed inside => exact absurd limit inside
  | found nearest =>
    cases h' with
    | ended limit => exact absurd nearest (nothing (ahead_limit limit))
    | found nearest' => rw [nearest.unique nearest']
    | missed _ nowhere => exact absurd nearest (nothing nowhere)
  | missed inside nowhere =>
    cases h' with
    | ended limit => exact absurd limit inside
    | found nearest => exact absurd nearest (nothing nowhere)
    | missed => rfl

/-- A seek comes to what is listed, each under its own condition. -/
theorem seek_eq_iff (wellFormed : m.WellFormed) {o : Outcome Unit} :
    seek d symbol m = o ↔ m.Sought symbol d o :=
  ⟨fun h => h ▸ seek_sought wellFormed symbol d, fun h => (seek_sought wellFormed symbol d).unique h⟩

/-! ## Seeking again and again -/

/-- The action, done again and again, moves the pointer from one index to the next and does nothing else. -/
inductive Visits (act : Action Unit) : Machine → List Nat → Machine → Prop
  | none (m : Machine) : Visits act m [] m
  | next {m n : Machine} {i : Nat} {is : List Nat} (moved : act m = ⟨.ok (), { m with pointer := .on i }, []⟩)
    (rest : Visits act { m with pointer := .on i } is n) : Visits act m (i :: is) n

/-- A repeated seek visits what is ahead in the order of its direction, and then finds nothing more. -/
theorem visits_ahead {is : List Nat} (wellFormed : m.WellFormed) (inside : m.pointer ≠ d.limit)
    (sorted : is.Pairwise fun i j : Nat => d.Before i j) (mem : ∀ i, i ∈ is ↔ i ∈ m.ahead symbol d) :
    ∃ n, Visits (seek d symbol) m is n ∧ seek d symbol n = ⟨.error (.notFound symbol d), n, []⟩ := by
  induction is generalizing m with
  | nil =>
    have nowhere : m.ahead symbol d = ∅ := Set.eq_empty_of_forall_notMem fun i hi => by simpa using (mem i).mpr hi
    exact ⟨m, .none m, (seek_eq_iff wellFormed).mpr (.missed inside nowhere)⟩
  | cons i is ih =>
    obtain ⟨hfirst, hsorted⟩ := List.pairwise_cons.mp sorted
    obtain ⟨hbefore, holds⟩ := (mem i).mp List.mem_cons_self
    have nearest : d.Nearest (m.ahead symbol d) i := by
      refine Direction.nearest_iff.mpr ⟨⟨hbefore, holds⟩, fun j hj hless => ?_⟩
      rcases List.mem_cons.mp ((mem j).mpr hj) with rfl | hj
      · exact Direction.not_before_self hless
      · exact Direction.not_before_self (hless.trans (hfirst j hj))
    have hlimit : Pointer.on i ≠ d.limit := by cases d <;> simp [Direction.limit]
    obtain ⟨n, visits, missed⟩ := ih (m := { m with pointer := .on i }) holds.lt_length hlimit hsorted fun j => by
      constructor
      · intro hj
        exact ⟨hfirst j hj, ((mem j).mp (List.mem_cons_of_mem i hj)).2⟩
      · rintro ⟨hij, hj⟩
        refine (List.mem_cons.mp ((mem j).mpr ⟨hbefore.trans hij, hj⟩)).resolve_left ?_
        rintro rfl
        exact Direction.not_before_self hij
    exact ⟨n, .next ((seek_eq_iff wellFormed).mpr (.found nearest)) visits, missed⟩

theorem mem_places : i ∈ m.places symbol ↔ m.Holds symbol i := by
  simp only [places, List.mem_filter, List.mem_range, decide_eq_true_eq, and_iff_right_iff_imp]
  exact Holds.lt_length

theorem places_sorted (m : Machine) (symbol : String) : (m.places symbol).Pairwise (· < ·) :=
  List.pairwise_lt_range.filter _

/-- From a place of the symbol, the way back from the nearest one ahead leads to where it began. -/
theorem seek_opposite (wellFormed : m.WellFormed) (on : m.pointer = .on i) (holds : m.Holds symbol i)
    (found : (seek d symbol m).result = .ok ()) :
    seek d.opposite symbol (seek d symbol m).machine = ⟨.ok (), m, []⟩ := by
  have sought := seek_sought wellFormed symbol d
  generalize seek d symbol m = o at sought found
  cases sought with
  | ended | missed => cases found
  | @found j nearest =>
    obtain ⟨⟨hbefore, hj⟩, hnearest⟩ := Direction.nearest_iff.mp nearest
    have hrank : m.pointer.rank m.program.length = i := by rw [on]; rfl
    rw [hrank] at hbefore
    have back : d.opposite.Nearest (ahead { m with pointer := .on j } symbol d.opposite) i := by
      refine Direction.nearest_iff.mpr ⟨⟨Direction.opposite_before.mpr hbefore, holds⟩, fun k ⟨hjk, hk⟩ hki => ?_⟩
      rw [Direction.opposite_before] at hjk hki
      refine hnearest k ⟨?_, hk⟩ hjk
      rwa [hrank]
    have hseek := (seek_eq_iff (m := { m with pointer := .on j }) hj.lt_length).mpr (.found back)
    have hsame : { m with pointer := Pointer.on i } = m := by rw [← on]
    exact hseek.trans (congrArg (Outcome.mk (Except.ok ()) · []) hsame)

/--
A seek fails where there is no way on, finds the nearest place of the symbol ahead of the pointer, or fails because
there is none; nothing but the pointer ever moves. Repeated from the start, forward seeks visit every place of the symbol
in increasing order and then find nothing more; backward seeks from the end visit the same places in reverse. A seek
back returns to the place where the last one began.
-/
theorem seek_visits_places (wellFormed : m.WellFormed) (symbol : String) :
    (∀ d o, seek d symbol m = o ↔ m.Sought symbol d o) ∧
      (m.places symbol).Pairwise (· < ·) ∧
      (∀ i, i ∈ m.places symbol ↔ m.Holds symbol i) ∧
      (∃ n, Visits (seekForward symbol) { m with pointer := .start } (m.places symbol) n ∧
        seekForward symbol n = ⟨.error (.notFound symbol .next), n, []⟩) ∧
      (∃ n, Visits (seekBackward symbol) { m with pointer := .finish } (m.places symbol).reverse n ∧
        seekBackward symbol n = ⟨.error (.notFound symbol .previous), n, []⟩) ∧
      ∀ d i, m.pointer = .on i → m.Holds symbol i → (seek d symbol m).result = .ok () →
        seek d.opposite symbol (seek d symbol m).machine = ⟨.ok (), m, []⟩ := by
  have hsorted := places_sorted m symbol
  refine ⟨fun d o => seek_eq_iff wellFormed, hsorted, fun i => mem_places, ?_, ?_,
    fun d i on holds => seek_opposite wellFormed on holds⟩
  · refine visits_ahead (m := { m with pointer := .start }) (d := .next) trivial (by simp [Direction.limit]) ?_
      fun i => ?_
    · exact hsorted.imp Int.ofNat_lt.mpr
    · rw [mem_places]
      exact ⟨fun holds => ⟨by
        show (-1 : Int) < i
        omega, holds⟩, And.right⟩
  · refine visits_ahead (m := { m with pointer := .finish }) (d := .previous) trivial (by simp [Direction.limit]) ?_
      fun i => ?_
    · exact List.pairwise_reverse.mpr (hsorted.imp Int.ofNat_lt.mpr)
    · rw [List.mem_reverse, mem_places]
      exact ⟨fun holds => ⟨Int.ofNat_lt.mpr holds.lt_length, holds⟩, And.right⟩

/-- From the second of three places, with a custom instruction among them. -/
theorem seek_visits_places_mixed :
    let program := [.command .moveRight, .custom ">" [.fail "never performed"] [], .command .emit, .command .moveRight]
    let m : Machine := { start program [] with pointer := .on 1 }
    m.places ">" = [0, 1, 3] ∧
      m.Sought ">" .next ⟨.ok (), { m with pointer := .on 3 }, []⟩ ∧
      (∃ n, Visits (seekBackward ">") { m with pointer := .finish } [3, 1, 0] n) ∧
      seek .previous ">" { m with pointer := .on 3 } = ⟨.ok (), m, []⟩ := by
  intro program m
  obtain ⟨sought, -, -, -, ⟨n, visits, -⟩, back⟩ := seek_visits_places (m := m) (by decide) ">"
  exact ⟨rfl, (sought .next _).mp rfl, ⟨n, visits⟩, back .next 1 rfl rfl rfl⟩

end Machine

end Rewind
