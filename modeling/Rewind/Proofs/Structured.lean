import Rewind.Proofs.Endings
import Rewind.Proofs.Trees

/-!
# Structured execution

The machine jumps about in a flat program while a tree program runs loop by loop, and both do the same.

- `Machine.Faces`: the machine is about to execute a part of its program that writes a tree program, or is back at the
  end of the loop which that part begins with. A step from there does what the tree program does first
  (`Faces.perform`, `Faces.refuse`, `Faces.decide`);
- `follows_of_runs`: the machine goes wherever the tree program runs, and leaves it as `Leaves` says;
- `runs_or_goes_on`: where the tree program neither ends nor gets stuck the machine goes on for ever.
-/

namespace Rewind

open Rewind.Action

/-! ## Commands on a store -/

namespace Store

/-- Only two commands can fail on a store. -/
theorem perform_eq_error_iff {c : Command} {s : Store} {fault : Fault} : perform c s = .error fault ↔
    c = .moveLeft ∧ s.tape.moveLeft? = none ∧ fault = .tapeUnderflow ∨
      c = .accept ∧ s.input = [] ∧ fault = .waiting := by
  cases c with
  | moveLeft => cases h : s.tape.moveLeft? <;> simp [perform, h, eq_comm]
  | accept => cases h : s.input <;> simp [perform, h, eq_comm]
  | _ => simp [perform]

end Store

/-- What a machine shares with a tree program. -/
def Machine.store (m : Machine) : Store := ⟨m.tape, m.input, m.emitted⟩

namespace Command

variable {m : Machine} {c : Command}

/-- A command works on a machine as on its store. -/
theorem works_of_perform {u : Store} (performed : Store.perform c m.store = .ok u) :
    ∃ w es, Works m c w es ∧ w.store = u := by
  cases c with
  | moveRight => exact ⟨_, _, .moveRight, Except.ok.inj performed⟩
  | moveLeft =>
    cases h : m.tape.moveLeft? with
    | none => simp [Store.perform, Machine.store, h] at performed
    | some t => exact ⟨_, _, .moveLeft h, by simpa [Store.perform, Machine.store, h] using performed⟩
  | increment => exact ⟨_, _, .increment, Except.ok.inj performed⟩
  | decrement => exact ⟨_, _, .decrement, Except.ok.inj performed⟩
  | emit => exact ⟨_, _, .emit, Except.ok.inj performed⟩
  | accept =>
    cases h : m.input with
    | nil => simp [Store.perform, Machine.store, h] at performed
    | cons value rest => exact ⟨_, _, .accept h, by simpa [Store.perform, Machine.store, h] using performed⟩
  | openLoop => exact ⟨_, _, .openLoop, Except.ok.inj performed⟩
  | closeLoop => exact ⟨_, _, .closeLoop, Except.ok.inj performed⟩

/-- What a store refuses is refused by the machine. -/
theorem refuses_of_perform {fault : Fault} (refused : Store.perform c m.store = .error fault) (i : Nat) :
    Refuses m i c fault := by
  rcases Store.perform_eq_error_iff.mp refused with ⟨rfl, first, rfl⟩ | ⟨rfl, dry, rfl⟩
  · exact .moveLeft first
  · exact .accept dry

theorem not_jumps_of_plain (plain : c.bracket? = none) (value : Cell) : ¬c.Jumps value := by
  cases c <;> first | exact id | cases plain

end Command

namespace Machine

open Node

variable {before after : List Command} {c : Command} {plain : c.bracket? = none} {body nodes : List Node}
  {m n : Machine}

/-- The machine is on a command that cannot be performed. -/
structure Stuck (n : Machine) (fault : Fault) : Prop where
  failed : step n = ⟨.error fault, n, []⟩
  refused : ∃ c, n.current? = some (.command c) ∧ Store.perform c n.store = .error fault

/--
The machine is about to execute a tree program that stands in its program, or it is at the end of the loop that the
tree program begins with, from where it goes round again or goes on behind the loop.
-/
structure Faces (before : List Command) (nodes : List Node) (after : List Command) (m : Machine) : Prop where
  program_eq : m.program = (before ++ (flattenAll nodes ++ after)).map .command
  pointer_eq : m.pointer = .atOrFinish m.program.length before.length ∨
    ∃ body rest, nodes = .loop body :: rest ∧ m.pointer = .on (before.length + 1 + (flattenAll body).length)

namespace Faces

theorem behind (faces : Faces before [] after m) : m.pointer = .atOrFinish m.program.length before.length := by
  rcases faces.pointer_eq with hpointer | ⟨body, rest, hloop, -⟩
  · exact hpointer
  · cases hloop

theorem on_command (faces : Faces before (.command c plain :: nodes) after m) :
    m.pointer = .on before.length ∧ m.program[before.length]? = some (.command c) := by
  obtain ⟨hprogram, hpointer⟩ := faces
  have hitem : m.program[before.length]? = some (.command c) := by simp [hprogram]
  rcases hpointer with hpointer | ⟨body, rest, hloop, -⟩
  · rw [hpointer, Pointer.atOrFinish_of_lt (List.getElem?_eq_some_iff.mp hitem).1]
    exact ⟨rfl, hitem⟩
  · cases hloop

theorem perform (faces : Faces before (.command c plain :: nodes) after m) {u : Store}
    (performed : Store.perform c m.store = .ok u) :
    (step m).result = .ok (some (.command c)) ∧ (step m).machine.store = u ∧
      Faces (before ++ [c]) nodes after (step m).machine := by
  obtain ⟨on, item⟩ := faces.on_command
  obtain ⟨w, es, works, rfl⟩ := Command.works_of_perform performed
  have hstep := step_of_works on item works (.stays (Command.not_jumps_of_plain plain _))
  have hprogram : w.program = (before ++ [c] ++ (flattenAll nodes ++ after)).map .command := by
    rw [works.program_eq, faces.program_eq]
    simp
  rw [hstep]
  refine ⟨rfl, rfl, hprogram, Or.inl ?_⟩
  show Pointer.atOrFinish m.program.length (before.length + 1) = .atOrFinish w.program.length (before ++ [c]).length
  rw [works.program_eq, List.length_append]
  rfl

theorem refuse (faces : Faces before (.command c plain :: nodes) after m) {fault : Fault}
    (refused : Store.perform c m.store = .error fault) : m.Stuck fault := by
  obtain ⟨on, item⟩ := faces.on_command
  exact ⟨step_of_refuses on item (Command.refuses_of_perform refused _), c, current?_eq_some_iff.mpr ⟨_, on, item⟩,
    refused⟩

/-- The program around a loop. -/
theorem loop_program (faces : Faces before (.loop body :: nodes) after m) :
    ∃ front inner back, m.program = front ++ .command .openLoop :: (inner ++ .command .closeLoop :: back) ∧
      before.length = front.length ∧ (flattenAll body).length = inner.length ∧ Balanced Item.bracket? inner := by
  refine ⟨before.map .command, (flattenAll body).map .command, (flattenAll nodes ++ after).map .command, ?_, by simp,
    by simp, balanced_commands (balanced_flattenAll body)⟩
  rw [faces.program_eq]
  simp

/-- At either end of a loop a step decides by the cell whether the body comes next or what is behind the loop. -/
theorem decide (faces : Faces before (.loop body :: nodes) after m) :
    ∃ c, (step m).result = .ok (some (.command c)) ∧ (step m).machine =
      { m with
        pointer := .atOrFinish m.program.length
          ((if m.tape.here = 0 then before.length + 1 + (flattenAll body).length else before.length) + 1)
        history := .command c :: m.history } := by
  obtain ⟨front, inner, back, hprogram, hfront, hinner, balanced⟩ := faces.loop_program
  have hleft : m.program[front.length]? = some (.command .openLoop) := by
    rw [hprogram]
    exact getElem?_around_left
  have hright : m.program[front.length + 1 + inner.length]? = some (.command .closeLoop) := by
    rw [hprogram]
    exact getElem?_around_right
  have hahead : matchingBracket m.program front.length = .ok ((front.length + 1 + inner.length : Nat) : Int) := by
    rw [hprogram]
    exact matchingBracket_around_left rfl rfl balanced
  have hbehind : matchingBracket m.program (front.length + 1 + inner.length : Nat) = .ok (front.length : Int) := by
    rw [hprogram]
    exact matchingBracket_around_right rfl (by simp [Command.bracket?]) balanced
  rcases faces.pointer_eq with hpointer | ⟨body', nodes', hloop, hpointer⟩
  · have on : m.pointer = .on front.length := by
      rw [hpointer, hfront, Pointer.atOrFinish_of_lt (List.getElem?_eq_some_iff.mp hleft).1]
    have lands : Command.Lands m.program front.length m.tape.here .openLoop
        (if m.tape.here = 0 then front.length + 1 + inner.length else front.length) := by
      split
      · exact .jumps ‹_› hahead
      · exact .stays ‹_›
    rw [step_of_works on hleft .openLoop lands, hfront, hinner]
    exact ⟨_, rfl, rfl⟩
  · obtain ⟨rfl, rfl⟩ : body = body' ∧ nodes = nodes' := by simpa using hloop
    have on : m.pointer = .on (front.length + 1 + inner.length) := by rw [hpointer, hfront, hinner]
    have lands : Command.Lands m.program (front.length + 1 + inner.length) m.tape.here .closeLoop
        (if m.tape.here = 0 then front.length + 1 + inner.length else front.length) := by
      split
      · exact .stays fun h => h ‹_›
      · exact .jumps ‹_› hbehind
    rw [step_of_works on hright .closeLoop lands, hfront, hinner]
    exact ⟨_, rfl, rfl⟩

/-- Over a zero cell a step goes on behind the loop. -/
theorem leave (faces : Faces before (.loop body :: nodes) after m) (zero : m.tape.here = 0) :
    ∃ item, (step m).result = .ok item ∧ (step m).machine.store = m.store ∧
      Faces (before ++ flattenAll [.loop body]) nodes after (step m).machine := by
  obtain ⟨c, hresult, hmachine⟩ := faces.decide
  rw [if_pos zero] at hmachine
  rw [hmachine]
  refine ⟨_, hresult, rfl, ?_, Or.inl ?_⟩
  · show m.program = _
    rw [faces.program_eq]
    simp
  · show Pointer.atOrFinish m.program.length _ = .atOrFinish m.program.length _
    congr 1
    simp
    omega

/-- Over any other cell a step goes on at the beginning of the body. -/
theorem enter (faces : Faces before (.loop body :: nodes) after m) (nonzero : m.tape.here ≠ 0) :
    ∃ item, (step m).result = .ok item ∧ (step m).machine.store = m.store ∧
      Faces (before ++ [.openLoop]) body (.closeLoop :: (flattenAll nodes ++ after)) (step m).machine := by
  obtain ⟨c, hresult, hmachine⟩ := faces.decide
  rw [if_neg nonzero] at hmachine
  rw [hmachine]
  refine ⟨_, hresult, rfl, ?_, Or.inl ?_⟩
  · show m.program = _
    rw [faces.program_eq]
    simp
  · show Pointer.atOrFinish m.program.length _ = .atOrFinish m.program.length _
    congr 1
    simp

/-- Behind the body the machine is at the end of the loop. -/
theorem round
    (faces : Faces (before ++ [.openLoop] ++ flattenAll body) [] (.closeLoop :: (flattenAll nodes ++ after)) m) :
    Faces before (.loop body :: nodes) after m := by
  have hprogram : m.program = (before ++ (flattenAll (.loop body :: nodes) ++ after)).map .command := by
    rw [faces.program_eq]
    simp
  refine ⟨hprogram, Or.inr ⟨body, nodes, rfl, ?_⟩⟩
  rw [faces.behind, Pointer.atOrFinish_of_lt (by simp [hprogram])]
  simp only [List.length_append, List.length_cons, List.length_nil]

end Faces

/-! ## Whole tree programs -/

/-- How the machine leaves a tree program: it stands behind it or is stuck. -/
def Leaves (before : List Command) (nodes : List Node) (after : List Command) (n : Machine) : Option Fault → Prop
  | none => Faces (before ++ flattenAll nodes) [] after n
  | some fault => n.Stuck fault

theorem Leaves.cast {before' : List Command} {nodes' : List Node} {fault : Option Fault}
    (h : before ++ flattenAll nodes = before' ++ flattenAll nodes') (leaves : Leaves before nodes after n fault) :
    Leaves before' nodes' after n fault := by
  cases fault with
  | none => rwa [Leaves, ← h]
  | some fault => exact leaves

/-- The machine goes wherever the tree program runs. -/
theorem follows_of_runs {s t : Store} {fault : Option Fault} (runs : Runs nodes s fault t)
    {before after : List Command} {m : Machine} (faces : Faces before nodes after m) (hs : m.store = s) :
    ∃ steps n, Repeats step m steps n ∧ n.store = t ∧ Leaves before nodes after n fault := by
  induction runs generalizing before after m with
  | done s => exact ⟨[], m, .none m, hs, by simpa [Leaves] using faces⟩
  | @next c plain nodes s u t fault performed rest ih =>
    subst hs
    obtain ⟨result, hstore, hfaces⟩ := faces.perform performed
    obtain ⟨steps, n, run, ht, hleaves⟩ := ih hfaces hstore
    exact ⟨_, n, .once result run, ht, hleaves.cast (by simp)⟩
  | stuck refused =>
    subst hs
    exact ⟨[], m, .none m, rfl, faces.refuse refused⟩
  | @leave body nodes s t fault zero rest ih =>
    subst hs
    obtain ⟨item, result, hstore, hfaces⟩ := faces.leave zero
    obtain ⟨steps, n, run, ht, hleaves⟩ := ih hfaces hstore
    exact ⟨_, n, .once result run, ht, hleaves.cast (by simp)⟩
  | @again body nodes s u t fault nonzero round rest ihRound ihRest =>
    subst hs
    obtain ⟨item, result, hstore, hfaces⟩ := faces.enter nonzero
    obtain ⟨inner, k, run, hu, hround⟩ := ihRound hfaces hstore
    obtain ⟨steps, n, run', ht, hleaves⟩ := ihRest hround.round hu
    exact ⟨_, n, (Repeats.once result run).append run', ht, hleaves⟩
  | @inside body nodes s t fault nonzero round ih =>
    subst hs
    obtain ⟨item, result, hstore, hfaces⟩ := faces.enter nonzero
    obtain ⟨steps, n, run, ht, hleaves⟩ := ih hfaces hstore
    exact ⟨_, n, .once result run, ht, hleaves⟩

/--
A tree program that neither ends nor gets stuck keeps the machine going: for any number there are as many steps that
succeed.
-/
theorem runs_or_goes_on (k : Nat) (faces : Faces before nodes after m) :
    (∃ fault t, Runs nodes m.store fault t) ∨ ∃ steps n, k ≤ steps.length ∧ Repeats step m steps n := by
  induction k generalizing before nodes after m with
  | zero => exact Or.inr ⟨[], m, Nat.le_refl 0, .none m⟩
  | succ k ih =>
    -- One step more than what goes on after the first one.
    have more : ∀ {item}, (step m).result = .ok item →
        (∃ steps n, k ≤ steps.length ∧ Repeats step (step m).machine steps n) →
        ∃ steps n, k + 1 ≤ steps.length ∧ Repeats step m steps n := by
      rintro item result ⟨steps, n, hk, run⟩
      exact ⟨item :: steps, n, Nat.succ_le_succ hk, .once result run⟩
    rcases nodes with _ | ⟨⟨c, plain⟩ | ⟨body⟩, nodes⟩
    · exact Or.inl ⟨_, _, .done _⟩
    · cases hperform : Store.perform c m.store with
      | error fault => exact Or.inl ⟨_, _, .stuck hperform⟩
      | ok u =>
        obtain ⟨result, rfl, hfaces⟩ := faces.perform hperform
        rcases ih hfaces with ⟨fault, t, runs⟩ | hmore
        · exact Or.inl ⟨fault, t, .next hperform runs⟩
        · exact Or.inr (more result hmore)
    · by_cases hzero : m.tape.here = 0
      · obtain ⟨item, result, hstore, hfaces⟩ := faces.leave hzero
        rcases ih hfaces with ⟨fault, t, runs⟩ | hmore
        · rw [hstore] at runs
          exact Or.inl ⟨fault, t, .leave hzero runs⟩
        · exact Or.inr (more result hmore)
      · obtain ⟨item, result, hstore, hfaces⟩ := faces.enter hzero
        rcases ih hfaces with ⟨fault, u, round⟩ | hmore
        · -- The body ends or gets stuck; if it ends the machine comes back to the loop.
          cases fault with
          | some fault =>
            rw [hstore] at round
            exact Or.inl ⟨_, u, .inside hzero round⟩
          | none =>
            obtain ⟨inner, n, run, rfl, hround⟩ := follows_of_runs round hfaces rfl
            rw [hstore] at round
            rcases ih hround.round with ⟨fault, t, runs⟩ | ⟨steps, n', hk, run'⟩
            · exact Or.inl ⟨fault, t, .again hzero round runs⟩
            · refine Or.inr (more result ⟨inner ++ steps, n', ?_, run.append run'⟩)
              rw [List.length_append]
              omega
        · exact Or.inr (more result hmore)

/-! ## Programs from the start -/

/-- The result of a run that leaves this store behind and ends as the tree program does. -/
def resultOf (t : Store) : Option Fault → Except Fault (List Cell)
  | none => .ok t.emitted.reverse
  | some fault => .error fault

theorem Leaves.ended {fault : Option Fault} (leaves : Leaves before nodes [] n fault) :
    Ended n (resultOf n.store fault) := by
  cases fault with
  | none =>
    have behind := Faces.behind leaves
    rw [leaves.program_eq, Pointer.atOrFinish, if_neg (by simp)] at behind
    exact .finish behind
  | some fault =>
    obtain ⟨c, hcurrent, -⟩ := leaves.refused
    obtain ⟨i, on, -⟩ := current?_eq_some_iff.mp hcurrent
    exact .failed (by simp [on]) leaves.failed

/-- The first step enters the program. -/
theorem faces_of_start (nodes : List Node) (input : List Cell) :
    (step (start ((flattenAll nodes).map .command) input)).result = .ok none ∧
      (step (start ((flattenAll nodes).map .command) input)).machine.store = .start input ∧
      Faces [] nodes [] (step (start ((flattenAll nodes).map .command) input)).machine := by
  rw [step_of_current?_eq_none rfl, advance_apply]
  refine ⟨rfl, rfl, ?_, Or.inl rfl⟩
  show (flattenAll nodes).map Item.command = ([] ++ (flattenAll nodes ++ [])).map .command
  simp

/-- Where the tree program runs the machine ends its run. -/
theorem runEnds_of_runs {input : List Cell} {fault : Option Fault} {t : Store}
    (runs : Runs nodes (.start input) fault t) :
    ∃ n, (start ((flattenAll nodes).map .command) input).RunEnds (resultOf t fault) n ∧ n.store = t ∧
      Leaves [] nodes [] n fault := by
  obtain ⟨result, hstore, faces⟩ := faces_of_start nodes input
  obtain ⟨steps, n, run, rfl, leaves⟩ := follows_of_runs runs faces hstore
  exact ⟨n, runEnds_of_repeats (.once result run) leaves.ended, rfl, leaves⟩

/-- When the machine ends its run the tree program runs as well. -/
theorem runs_of_runEnds {input : List Cell} {r : Except Fault (List Cell)}
    (ends : (start ((flattenAll nodes).map .command) input).RunEnds r n) :
    ∃ fault, Runs nodes (.start input) fault n.store ∧ r = resultOf n.store fault ∧ Leaves [] nodes [] n fault := by
  have regular : (start ((flattenAll nodes).map .command) input).Regular := ⟨⟨_, rfl⟩, trivial⟩
  obtain ⟨result, hstore, faces⟩ := faces_of_start nodes input
  obtain ⟨⟨steps, run⟩, ended⟩ := (runEnds_iff regular).mp ends
  obtain ⟨fault, stopped⟩ := ended.step_eq
  rcases runs_or_goes_on (steps.length + 1) faces with ⟨fault, t, runs⟩ | ⟨more, k, hlen, run'⟩
  · rw [hstore] at runs
    obtain ⟨n', ends', rfl, leaves⟩ := runEnds_of_runs runs
    obtain ⟨rfl, rfl⟩ := ends.unique ends'
    exact ⟨fault, runs, rfl, leaves⟩
  · have hle := run.length_le (by rw [stopped]) (.once result run')
    rw [List.length_cons] at hle
    omega

/--
The machine refines the tree program. A parsed text is written by exactly one tree program, and on every input the
run of the machine ends well exactly when the tree program does, with the same output, tape and remaining input; it
stops at a fault exactly when the tree program is stuck at it, with the same again; and it stops only where the cursor
should move left of the first cell or input is missing.
-/
theorem run_refines_tree {source : String} {commands : List Command} (parsed : parse source = .ok commands) :
    ∃ nodes, (∀ other, flattenAll other = source.toList.filterMap Command.ofChar? ↔ other = nodes) ∧ ∀ input,
      (∀ output t, (∃ n, (start (commands.map .command) input).RunEnds (.ok output) n ∧ n.store = t) ↔
        Runs nodes (.start input) none t ∧ output = t.emitted.reverse) ∧
      (∀ fault t, (∃ n, (start (commands.map .command) input).RunEnds (.error fault) n ∧ n.store = t) ↔
        Runs nodes (.start input) (some fault) t) ∧
      ∀ fault n, (start (commands.map .command) input).RunEnds (.error fault) n →
        fault = .tapeUnderflow ∧ n.current? = some (.command .moveLeft) ∧ n.tape.cursor = 0 ∨
          fault = .waiting ∧ n.current? = some (.command .accept) ∧ n.input = [] := by
  obtain ⟨nodes, hnodes⟩ := exists_tree_of_parse parsed
  obtain ⟨-, hcommands⟩ := parse_eq_ok_iff.mp parsed
  refine ⟨nodes, by rwa [← hcommands], fun input => ?_⟩
  obtain rfl : flattenAll nodes = commands := (hnodes nodes).mpr rfl
  refine ⟨fun output t => ⟨?_, ?_⟩, fun fault t => ⟨?_, ?_⟩, fun fault n ends => ?_⟩
  · rintro ⟨n, ends, rfl⟩
    obtain ⟨fault, runs, hresult, -⟩ := runs_of_runEnds ends
    cases fault with
    | none => exact ⟨runs, Except.ok.inj hresult⟩
    | some fault => cases hresult
  · rintro ⟨runs, rfl⟩
    obtain ⟨n, ends, hstore, -⟩ := runEnds_of_runs runs
    exact ⟨n, ends, hstore⟩
  · rintro ⟨n, ends, rfl⟩
    obtain ⟨fault', runs, hresult, -⟩ := runs_of_runEnds ends
    cases fault' with
    | none => cases hresult
    | some fault' => rwa [Except.error.inj hresult]
  · intro runs
    obtain ⟨n, ends, hstore, -⟩ := runEnds_of_runs runs
    exact ⟨n, ends, hstore⟩
  · obtain ⟨fault', -, hresult, leaves⟩ := runs_of_runEnds ends
    cases fault' with
    | none => cases hresult
    | some fault' =>
      obtain rfl := Except.error.inj hresult
      obtain ⟨c, hcurrent, refused⟩ := leaves.refused
      rcases Store.perform_eq_error_iff.mp refused with ⟨rfl, first, rfl⟩ | ⟨rfl, dry, rfl⟩
      · exact Or.inl ⟨rfl, hcurrent, Tape.moveLeft?_eq_none_iff.mp first⟩
      · exact Or.inr ⟨rfl, hcurrent, dry⟩

/--
A program that goes right while it reads and left while it prints gives its input backward, if that ends with a zero. It
waits for more inside its first loop otherwise.
-/
theorem run_refines_tree_backward :
    ∃ nodes t u,
      flattenAll nodes =
        [.moveRight, .accept, .openLoop, .moveRight, .accept, .closeLoop, .moveLeft, .openLoop, .emit, .moveLeft,
          .closeLoop] ∧
      Runs nodes (.start [1, 2, 0]) none t ∧ t.emitted.reverse = [2, 1] ∧ t.tape.cells = [0, 1, 2, 0] ∧
      Runs nodes (.start [1, 2]) (some .waiting) u ∧ u.tape.cursor = 3 := by
  have parsed : parse "read >,[>,] then print <[.<]" =
      .ok [.moveRight, .accept, .openLoop, .moveRight, .accept, .closeLoop, .moveLeft, .openLoop, .emit, .moveLeft,
        .closeLoop] := rfl
  obtain ⟨nodes, hnodes, hruns⟩ := run_refines_tree parsed
  obtain ⟨hends, -⟩ := hruns [1, 2, 0]
  obtain ⟨-, hstuck, -⟩ := hruns [1, 2]
  obtain ⟨printed, -⟩ := (hends [2, 1] _).mp ⟨_, ⟨30, _, rfl, rfl, rfl⟩, rfl⟩
  have waits := (hstuck .waiting _).mp ⟨_, ⟨30, _, rfl, rfl, rfl⟩, rfl⟩
  exact ⟨nodes, _, _, (hnodes nodes).mpr rfl, printed, rfl, rfl, waits, rfl⟩

end Machine

end Rewind
