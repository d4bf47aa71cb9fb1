import Rewind.Proofs.Feeding
import Rewind.Proofs.Endings
import Rewind.Report

/-!
# Input piece by piece

A machine that was made without input asks for it when it is dry (`Machine.Dry`), and goes on once it gets some. Until
then more input behind its own makes no difference (`step_queued`), so that a run on more input goes as far as the run
without it, and goes on from there if that one asks for input (`runEnds_queued_iff`).

`Machine.Dialogue` runs a machine again and again with one more chunk of input whenever it asks for some.
`runEnds_iff_dialogue` says that it comes to the same as one run on all chunks at once.
-/

namespace Rewind.Machine

open Rewind.Action

/-- The machine with more input behind its own, and as if it was made with other input. -/
def queued (m : Machine) (staged rest : List Cell) : Machine := m.fed staged (m.input ++ rest)

/-- The machine is about to read from input that is at its end. -/
structure Dry (m : Machine) : Prop where
  current : m.current? = some (.command .accept)
  input : m.input = []

/-- The run stopped at a request for input. -/
def Asks (r : Except Fault (List Cell)) : Prop := ∃ fault, r = .error fault ∧ fault.report.kind = .inputNeeded

variable {m n k : Machine} {r : Except Fault (List Cell)} {staged rest : List Cell}

/-! ## Machines that ask -/

theorem Regular.fed (regular : m.Regular) (staged input : List Cell) : (m.fed staged input).Regular :=
  ⟨regular.plain, regular.wellFormed⟩

theorem Dry.queued (dry : m.Dry) : (m.queued staged []).Dry := ⟨dry.current, by simp [Machine.queued, fed, dry.input]⟩

theorem Dry.ended (dry : m.Dry) : Ended m (.error .waiting) := by
  obtain ⟨i, on, item⟩ := current?_eq_some_iff.mp dry.current
  exact .failed (by simp [on]) (step_of_refuses on item (.accept dry.input))

/-- A run that has ended asks for input exactly when it has come to read what is not there. -/
theorem Ended.asks_iff (regular : n.Regular) (ended : Ended n r) : Asks r ↔ n.Dry := by
  constructor
  · rintro ⟨fault, rfl, hkind⟩
    cases ended with
    | failed inside failed =>
      have stepped := step_stepped regular
      rw [failed] at stepped
      cases stepped with
      | ended finish => exact absurd finish inside
      | @refused i _ _ on item refuses =>
        cases refuses with
        | moveLeft => cases hkind
        | accept dry => exact ⟨current?_eq_some_iff.mpr ⟨i, on, item⟩, dry⟩
        | unpaired _ single =>
          obtain ⟨b, rfl⟩ := unmatched_of_matchingBracket (List.getElem?_eq_some_iff.mp item).1 single
          cases hkind
  · intro dry
    rw [ended.unique dry.ended]
    exact ⟨_, rfl, rfl⟩

/-! ## More input behind -/

/-- Unless a machine is dry, it steps alike with more input behind its own. -/
theorem step_queued (regular : m.Regular) (wet : ¬m.Dry) (staged rest : List Cell) :
    step (m.queued staged rest) = ⟨(step m).result, (step m).machine.queued staged rest, (step m).events⟩ := by
  cases hr : (step m).result with
  | ok a =>
    obtain ⟨taken, hinput, -, -, hstep⟩ := feed_of_step regular hr
    rw [queued, hinput, List.append_assoc]
    exact hstep staged _
  | error fault =>
    have hsame := step_of_error regular hr
    have stepped := step_stepped regular
    rw [hsame] at stepped ⊢
    cases stepped with
    | ended finish => exact step_of_finish (m := m.queued staged rest) finish
    | @refused i _ _ on item refuses =>
      refine step_of_refuses (m := m.queued staged rest) on item ?_
      cases refuses with
      | moveLeft first => exact .moveLeft first
      | accept dry => exact absurd ⟨current?_eq_some_iff.mpr ⟨i, on, item⟩, dry⟩ wet
      | unpaired jumps single => exact .unpaired jumps single

theorem ended_queued_iff (regular : m.Regular) (wet : ¬m.Dry) : Ended (m.queued staged rest) r ↔ Ended m r := by
  have hstep := step_queued regular wet staged rest
  constructor
  · intro ended
    cases ended with
    | finish finish => exact .finish finish
    | failed inside failed =>
      rw [hstep] at failed
      exact .failed inside (step_of_error regular (congrArg Outcome.result failed))
  · intro ended
    cases ended with
    | finish finish => exact .finish finish
    | failed inside failed =>
      rw [failed] at hstep
      exact .failed inside hstep

theorem repeats_queued {steps : List (Option Item)} (regular : m.Regular) (run : Repeats step m steps n) :
    Repeats step (m.queued staged rest) steps (n.queued staged rest) := by
  obtain ⟨taken, hinput, -, hrun⟩ := feed_of_repeats regular run
  have := hrun staged (n.input ++ rest)
  rwa [← List.append_assoc, ← hinput] at this

/-! ## Runs that go on -/

theorem RunEnds.regular (regular : m.Regular) (h : m.RunEnds r n) : n.Regular := by
  obtain ⟨⟨steps, run⟩, -⟩ := (runEnds_iff regular).mp h
  exact regular.repeats run

/-- Steps may be made before a run. -/
theorem RunEnds.after {steps : List (Option Item)} (regular : m.Regular) (run : Repeats step m steps n)
    (h : n.RunEnds r k) : m.RunEnds r k := by
  obtain ⟨⟨later, hlater⟩, ended⟩ := (runEnds_iff (regular.repeats run)).mp h
  exact runEnds_of_repeats (run.append hlater) ended

theorem Dry.runEnds (dry : m.Dry) : m.RunEnds (.error .waiting) m := runEnds_of_repeats (.none m) dry.ended

theorem RunEnds.dry (regular : m.Regular) (h : m.RunEnds r n) (asks : Asks r) : n.Dry ∧ r = .error .waiting := by
  obtain ⟨-, ended⟩ := (runEnds_iff regular).mp h
  have dry := (ended.asks_iff (h.regular regular)).mp asks
  exact ⟨dry, ended.unique dry.ended⟩

/-- How a run without more input ends, and what a run on more input makes of it. -/
def Resumes (m : Machine) (staged rest : List Cell) (r : Except Fault (List Cell)) (k : Machine) : Prop :=
  ∃ r' n, m.RunEnds r' n ∧
    (¬Asks r' ∧ r = r' ∧ k = n.queued staged rest ∨ Asks r' ∧ (n.queued staged rest).RunEnds r k)

theorem resumes_of_repeats {steps : List (Option Item)} (regular : m.Regular)
    (run : Repeats step (m.queued staged rest) steps k) (ended : Ended k r) : m.Resumes staged rest r k := by
  generalize hq : m.queued staged rest = q at run
  induction run generalizing m with
  | none =>
    subst hq
    by_cases dry : m.Dry
    · exact ⟨_, m, dry.runEnds, Or.inr ⟨⟨_, rfl, rfl⟩, runEnds_of_repeats (.none _) ended⟩⟩
    · have hm := (ended_queued_iff regular dry).mp ended
      exact ⟨r, m, runEnds_of_repeats (.none m) hm, Or.inl ⟨fun asks => dry ((hm.asks_iff regular).mp asks), rfl, rfl⟩⟩
  | once result run ih =>
    subst hq
    by_cases dry : m.Dry
    · exact ⟨_, m, dry.runEnds, Or.inr ⟨⟨_, rfl, rfl⟩, runEnds_of_repeats (.once result run) ended⟩⟩
    · have hstep := step_queued regular dry staged rest
      rw [hstep] at result
      obtain ⟨r', n, hrun, hrest⟩ := ih regular.step ended (by rw [hstep])
      exact ⟨r', n, hrun.after regular (repeats_one result), hrest⟩

/-- A run on more input goes as far as the run without it, and goes on from there if that one asks for input. -/
theorem runEnds_queued_iff (regular : m.Regular) :
    (m.queued staged rest).RunEnds r k ↔ m.Resumes staged rest r k := by
  have hqueued : (m.queued staged rest).Regular := regular.fed _ _
  constructor
  · intro h
    obtain ⟨⟨steps, run⟩, ended⟩ := (runEnds_iff hqueued).mp h
    exact resumes_of_repeats regular run ended
  · rintro ⟨r', n, hrun, hrest⟩
    obtain ⟨⟨steps, run⟩, ended⟩ := (runEnds_iff regular).mp hrun
    have hn := regular.repeats run
    rcases hrest with ⟨asks, rfl, rfl⟩ | ⟨-, hrest⟩
    · have wet : ¬n.Dry := fun dry => asks ((ended.asks_iff hn).mpr dry)
      exact runEnds_of_repeats (repeats_queued regular run) ((ended_queued_iff hn wet).mpr ended)
    · exact hrest.after hqueued (repeats_queued regular run)

/-! ## Dialogues -/

/--
Runs the machine, and whenever it asks for input supplies the next of the chunks and runs it again. That ends when a
run ends in another way, or asks for input and no chunk is left; the last list is of the chunks not supplied.
-/
inductive Dialogue : Machine → List (List Cell) → Except Fault (List Cell) → Machine → List (List Cell) → Prop
  | settled {m n : Machine} {chunks : List (List Cell)} {r : Except Fault (List Cell)} (run : m.RunEnds r n)
    (settled : ¬Asks r) : Dialogue m chunks r n chunks
  | starved {m n : Machine} {r : Except Fault (List Cell)} (run : m.RunEnds r n) (asks : Asks r) : Dialogue m [] r n []
  | supplied {m n n' k : Machine} {chunk : List Cell} {chunks left : List (List Cell)}
    {r r' : Except Fault (List Cell)} (run : m.RunEnds r n) (asks : Asks r)
    (supply : supplyInput (chunk.map Cell.value) n = ⟨.ok (), n', []⟩) (rest : Dialogue n' chunks r' k left) :
    Dialogue m (chunk :: chunks) r' k left

variable {chunk : List Cell} {chunks left : List (List Cell)}

theorem supplyInput_values (chunk : List Cell) (m : Machine) :
    supplyInput (chunk.map Cell.value) m = ⟨.ok (), m.fed m.staged (chunk ++ m.input), []⟩ := by
  rw [supplyInput_apply, Cell.listOfInts?_eq_some_iff.mpr rfl]
  rfl

/-- A dialogue comes to one end only. -/
theorem Dialogue.unique {r' : Except Fault (List Cell)} {n' : Machine} {left' : List (List Cell)}
    (h : m.Dialogue chunks r n left) (h' : m.Dialogue chunks r' n' left') :
    r = r' ∧ n = n' ∧ left = left' := by
  induction h with
  | settled run settled =>
    cases h' with
    | settled run' =>
      obtain ⟨rfl, rfl⟩ := run.unique run'
      exact ⟨rfl, rfl, rfl⟩
    | starved run' asks | supplied run' asks =>
      obtain ⟨rfl, rfl⟩ := run.unique run'
      exact absurd asks settled
  | starved run asks =>
    cases h' with
    | settled run' settled =>
      obtain ⟨rfl, rfl⟩ := run.unique run'
      exact absurd asks settled
    | starved run' =>
      obtain ⟨rfl, rfl⟩ := run.unique run'
      exact ⟨rfl, rfl, rfl⟩
  | supplied run asks supply _ ih =>
    cases h' with
    | settled run' settled =>
      obtain ⟨rfl, rfl⟩ := run.unique run'
      exact absurd asks settled
    | supplied run' _ supply' rest' =>
      obtain ⟨rfl, rfl⟩ := run.unique run'
      obtain rfl := congrArg Outcome.machine (supply.symm.trans supply')
      exact ih rest'

/-- What a dry machine is supplied with is the first of the input that is queued behind it. -/
theorem Dry.queued_append (dry : m.Dry) :
    m.queued staged (chunk ++ rest) = (m.fed m.staged (chunk ++ m.input)).queued staged rest := by
  simp [Machine.queued, fed, dry.input]

theorem runEnds_queued_flatten_iff (regular : m.Regular) : (m.queued staged chunks.flatten).RunEnds r k ↔
    ∃ n left, m.Dialogue chunks r n left ∧ k = n.queued staged left.flatten := by
  induction chunks generalizing m with
  | nil =>
    rw [runEnds_queued_iff regular]
    constructor
    · rintro ⟨r', n, run, ⟨settled, rfl, rfl⟩ | ⟨asks, hrest⟩⟩
      · exact ⟨n, [], .settled run settled, rfl⟩
      · obtain ⟨dry, rfl⟩ := run.dry regular asks
        obtain ⟨rfl, rfl⟩ := hrest.unique dry.queued.runEnds
        exact ⟨n, [], .starved run asks, rfl⟩
    · rintro ⟨n, left, dialogue, rfl⟩
      cases dialogue with
      | settled run settled => exact ⟨r, n, run, Or.inl ⟨settled, rfl, rfl⟩⟩
      | starved run asks =>
        obtain ⟨dry, rfl⟩ := run.dry regular asks
        exact ⟨_, n, run, Or.inr ⟨asks, dry.queued.runEnds⟩⟩
  | cons chunk chunks ih =>
    rw [runEnds_queued_iff regular]
    constructor
    · rintro ⟨r', n, run, ⟨settled, rfl, rfl⟩ | ⟨asks, hrest⟩⟩
      · exact ⟨n, _, .settled run settled, rfl⟩
      · obtain ⟨dry, -⟩ := run.dry regular asks
        rw [List.flatten_cons, dry.queued_append] at hrest
        obtain ⟨n', left, dialogue, rfl⟩ := (ih ((run.regular regular).fed _ _)).mp hrest
        exact ⟨n', left, .supplied run asks (supplyInput_values chunk n) dialogue, rfl⟩
    · rintro ⟨n, left, dialogue, rfl⟩
      cases dialogue with
      | settled run settled => exact ⟨r, n, run, Or.inl ⟨settled, rfl, rfl⟩⟩
      | @supplied _ n' _ _ _ _ _ r' _ run asks supply dialogue =>
        obtain ⟨dry, -⟩ := run.dry regular asks
        rw [supplyInput_values] at supply
        obtain rfl := congrArg Outcome.machine supply
        refine ⟨r', n', run, Or.inr ⟨asks, ?_⟩⟩
        rw [List.flatten_cons, dry.queued_append]
        exact (ih ((run.regular regular).fed _ _)).mpr ⟨n, left, dialogue, rfl⟩

/--
The run on all chunks at once ends exactly when the dialogue ends that gets them one by one, with the same result and
the same machine, but for the chunks that were not supplied, which are then still behind its input.
-/
theorem runEnds_iff_dialogue (commands : List Command) (chunks : List (List Cell)) (r : Except Fault (List Cell))
    (k : Machine) : (start (commands.map .command) chunks.flatten).RunEnds r k ↔
      ∃ n left, (start (commands.map .command) []).Dialogue chunks r n left ∧
        k = n.queued chunks.flatten left.flatten := by
  have regular : (start (commands.map .command) []).Regular := ⟨⟨commands, rfl⟩, wellFormed_start _ _⟩
  exact runEnds_queued_flatten_iff regular

end Rewind.Machine
