import Rewind.Event

/-!
# The course of a tape

Every change of a machine's tape is told as an event. `Event.changes` picks these events out of a list, and
`Tape.after?` makes a list of changes one after the other, so that the tapes in between can be followed
(`after?_append`).

- `Tape.recent` are the changes since the tape was last cleared (`after?_recent`), and `Tape.cleared` are the tapes that
  are cleared on the way;
- `Tape.Passes` says that the changes lead through a tape, and `Tape.Stores` at which positions they store something.
-/

namespace Rewind

/-- The changes of the tape among some events, in order. -/
def Event.changes (events : List Event) : List Tape.Change :=
  events.filterMap fun
    | .tape change => some change
    | _ => none

@[simp] theorem Event.changes_nil : Event.changes [] = [] := rfl

@[simp] theorem Event.changes_append (es fs : List Event) :
    Event.changes (es ++ fs) = Event.changes es ++ Event.changes fs := List.filterMap_append

/-- The tape after some changes, if all of them can be made. -/
def Tape.after? : List Tape.Change → Tape → Option Tape
  | [], t => some t
  | c :: cs, t => (t.change? c).bind (Tape.after? cs)

theorem Tape.after?_append (cs ds : List Tape.Change) (t : Tape) :
    t.after? (cs ++ ds) = (t.after? cs).bind (Tape.after? ds) := by
  induction cs generalizing t with
  | nil => rfl
  | cons c cs ih =>
    simp only [List.cons_append, Tape.after?]
    cases t.change? c with
    | none => rfl
    | some u => exact ih u

namespace Tape

variable {cs : List Change} {c : Change} {t u : Tape}

theorem after?_concat (cs : List Change) (c : Change) (t : Tape) :
    t.after? (cs ++ [c]) = (t.after? cs).bind (change? c) := by
  have hlast : after? [c] = change? c := funext fun u => Option.bind_fun_some _
  rw [after?_append, hlast]

theorem after?_concat_eq_some_iff : t.after? (cs ++ [c]) = some u ↔ ∃ v, t.after? cs = some v ∧ v.change? c = some u := by
  rw [after?_concat, Option.bind_eq_some_iff]

/-- The tapes before each of the changes are there if the last one is. -/
theorem exists_after?_of_prefix {ds : List Change} (h : t.after? ds = some u) (part : cs <+: ds) :
    ∃ v, t.after? cs = some v := by
  obtain ⟨rest, rfl⟩ := part
  rw [after?_append, Option.bind_eq_some_iff] at h
  obtain ⟨v, hv, -⟩ := h
  exact ⟨v, hv⟩

/-- The changes since the tape was last cleared. -/
def recent (changes : List Change) : List Change :=
  changes.foldl (fun since change => if change = .clear then [] else since ++ [change]) []

theorem recent_concat (cs : List Change) (c : Change) :
    recent (cs ++ [c]) = if c = .clear then [] else recent cs ++ [c] := by
  simp [recent]

/-- The tapes that are cleared in the course of the changes, as they are just before. -/
def cleared : List Change → Tape → List Tape
  | [], _ => []
  | c :: cs, t => (if c = .clear then [t] else []) ++ (t.change? c).elim [] (cleared cs)

theorem cleared_append (h : t.after? cs = some u) (ds : List Change) :
    t.cleared (cs ++ ds) = t.cleared cs ++ u.cleared ds := by
  induction cs generalizing t with
  | nil =>
    obtain rfl := Option.some.inj h
    rfl
  | cons c cs ih =>
    obtain ⟨v, made, hrest⟩ := Option.bind_eq_some_iff.mp h
    rw [List.cons_append, cleared, cleared, made, Option.elim_some, Option.elim_some, ih hrest, List.append_assoc]

theorem cleared_of_not_mem (kept : .clear ∉ cs) : t.cleared cs = [] := by
  induction cs generalizing t with
  | nil => rfl
  | cons c cs ih =>
    rw [List.mem_cons, not_or] at kept
    rw [cleared, if_neg (Ne.symm kept.1), List.nil_append]
    cases t.change? c with
    | none => rfl
    | some u => exact ih kept.2

theorem cleared_eq_nil_iff (h : t.after? cs = some u) : t.cleared cs = [] ↔ .clear ∉ cs := by
  refine ⟨fun hcleared hmem => ?_, cleared_of_not_mem⟩
  obtain ⟨before, after, rfl⟩ := List.append_of_mem hmem
  obtain ⟨v, hv⟩ := exists_after?_of_prefix h (List.prefix_append _ _)
  rw [cleared_append hv] at hcleared
  simp [cleared] at hcleared

/-- The tape is one of those that the changes lead through, the first and the last included. -/
def Passes (changes : List Change) (t u : Tape) : Prop := ∃ part, part <+: changes ∧ t.after? part = some u

/-- In the course of the changes something is stored at this position. -/
def Stores (changes : List Change) (t : Tape) (i : Nat) : Prop :=
  ∃ part value u, part ++ [.write value] <+: changes ∧ t.after? part = some u ∧ u.cursor = i

end Tape

end Rewind
