import Rewind.Action

/-!
# Doing an action again and again

`Action.Repeats x m as n` says that the action `x`, done as often as there are values in `as`, succeeds each time with
these values and leads from `m` to `n`. Repetitions can be joined and split (`Repeats.append`, `repeats_append_iff`),
and any two from one machine agree as far as both go (`Repeats.unique`, `Repeats.length_le`).
-/

namespace Rewind.Action

variable {α : Type} {x : Action α}

/-- The action succeeds again and again, with these values. -/
inductive Repeats (x : Action α) : Machine → List α → Machine → Prop
  | none (m : Machine) : Repeats x m [] m
  | once {m n : Machine} {a : α} {as : List α} (result : (x m).result = .ok a) (rest : Repeats x (x m).machine as n) :
    Repeats x m (a :: as) n

variable {m n k : Machine} {a : α} {as bs : List α}

theorem repeats_nil_iff : Repeats x m [] n ↔ n = m := by
  constructor
  · intro h
    cases h
    rfl
  · rintro rfl
    exact .none n

theorem repeats_cons_iff : Repeats x m (a :: as) n ↔ (x m).result = .ok a ∧ Repeats x (x m).machine as n := by
  constructor
  · intro h
    cases h with
    | once result rest => exact ⟨result, rest⟩
  · rintro ⟨result, rest⟩
    exact .once result rest

theorem repeats_one (result : (x m).result = .ok a) : Repeats x m [a] (x m).machine := .once result (.none _)

theorem Repeats.append (h : Repeats x m as n) (h' : Repeats x n bs k) : Repeats x m (as ++ bs) k := by
  induction h with
  | none m => exact h'
  | once result _ ih => exact .once result (ih h')

theorem repeats_append_iff : Repeats x m (as ++ bs) k ↔ ∃ n, Repeats x m as n ∧ Repeats x n bs k := by
  constructor
  · intro h
    induction as generalizing m with
    | nil => exact ⟨m, .none m, h⟩
    | cons a as ih =>
      obtain ⟨result, rest⟩ := repeats_cons_iff.mp h
      obtain ⟨n, hn, hk⟩ := ih rest
      exact ⟨n, .once result hn, hk⟩
  · rintro ⟨n, hn, hk⟩
    exact hn.append hk

/-- As many repetitions lead to one machine only, with the same values. -/
theorem Repeats.unique (h : Repeats x m as n) (h' : Repeats x m bs k) (hlen : as.length = bs.length) :
    as = bs ∧ n = k := by
  induction h generalizing bs with
  | none m =>
    obtain rfl := List.length_eq_zero_iff.mp hlen.symm
    exact ⟨rfl, (repeats_nil_iff.mp h').symm⟩
  | once result _ ih =>
    cases h' with
    | none => simp at hlen
    | once result' rest' =>
      obtain rfl := Except.ok.inj (result.symm.trans result')
      obtain ⟨rfl, rfl⟩ := ih rest' (by simpa using hlen)
      exact ⟨rfl, rfl⟩

/-- After repetitions that cannot go on there are no more of them. -/
theorem Repeats.length_le {fault : Fault} (h : Repeats x m as n) (stopped : (x n).result = .error fault)
    (h' : Repeats x m bs k) : bs.length ≤ as.length := by
  induction h generalizing bs with
  | none m =>
    cases h' with
    | none => exact Nat.le_refl 0
    | once result => cases stopped.symm.trans result
  | once result _ ih =>
    cases h' with
    | none => exact Nat.zero_le _
    | once result' rest' => exact Nat.succ_le_succ (ih stopped rest')

end Rewind.Action
