import Rewind.Source
import Rewind.Tree

/-!
# Trees of source texts

- a text whose brackets were checked is written by a tree program (`exists_parts_of_checkBrackets`);
- a list of commands is written by one tree program at most (`Node.flattenAll_inj`);
- hence a parsed text has exactly one tree (`exists_tree_of_parse`).
-/

namespace Rewind

namespace Node

variable {c : Command} {plain : c.bracket? = none} {body nodes : List Node}

@[simp] theorem flattenAll_nil : flattenAll [] = [] := by rw [flattenAll]

@[simp] theorem flattenAll_command : flattenAll (command c plain :: nodes) = c :: flattenAll nodes := by
  rw [flattenAll, flatten]
  rfl

@[simp] theorem flattenAll_loop :
    flattenAll (loop body :: nodes) = .openLoop :: (flattenAll body ++ .closeLoop :: flattenAll nodes) := by
  rw [flattenAll, flatten]
  simp

/-! ## One tree at most -/

/-- What can follow a tree program: nothing, or the end of the loop around it. -/
inductive Follows : List Command → Prop
  | nothing : Follows []
  | closing (rest : List Command) : Follows (.closeLoop :: rest)

theorem not_follows_cons (hc : c.bracket? = none) {rest : List Command} : ¬Follows (c :: rest) := by
  intro h
  cases h
  cases hc

/-- The commands of a tree program and what follows it tell the two apart. -/
theorem flattenAll_append_inj : (a b : List Node) → {x y : List Command} → Follows x → Follows y →
    flattenAll a ++ x = flattenAll b ++ y → a = b ∧ x = y
  | [], [], _, _, _, _, h => ⟨rfl, by simpa using h⟩
  | [], command c plain :: b, x, y, hx, _, h => by
    obtain rfl : x = c :: (flattenAll b ++ y) := by simpa using h
    exact absurd hx (not_follows_cons plain)
  | [], loop body :: b, x, y, hx, _, h => by
    obtain rfl : x = .openLoop :: (flattenAll body ++ .closeLoop :: (flattenAll b ++ y)) := by simpa using h
    cases hx
  | command c plain :: a, [], x, y, _, hy, h => by
    obtain rfl : c :: (flattenAll a ++ x) = y := by simpa using h
    exact absurd hy (not_follows_cons plain)
  | loop body :: a, [], x, y, _, hy, h => by
    obtain rfl : .openLoop :: (flattenAll body ++ .closeLoop :: (flattenAll a ++ x)) = y := by simpa using h
    cases hy
  | command c plain :: a, command d plain' :: b, x, y, hx, hy, h => by
    obtain ⟨rfl, hrest⟩ : c = d ∧ flattenAll a ++ x = flattenAll b ++ y := by simpa using h
    obtain ⟨rfl, rfl⟩ := flattenAll_append_inj a b hx hy hrest
    exact ⟨rfl, rfl⟩
  | command c plain :: a, loop body :: b, _, _, _, _, h => by
    obtain rfl : c = .openLoop := by simp at h; exact h.1
    cases plain
  | loop body :: a, command c plain :: b, _, _, _, _, h => by
    obtain rfl : .openLoop = c := by simp at h; exact h.1
    cases plain
  | loop body :: a, loop body' :: b, x, y, hx, hy, h => by
    have hin : flattenAll body ++ .closeLoop :: (flattenAll a ++ x) =
        flattenAll body' ++ .closeLoop :: (flattenAll b ++ y) := by simpa using h
    obtain ⟨rfl, hout⟩ := flattenAll_append_inj body body' (.closing _) (.closing _) hin
    obtain ⟨rfl, rfl⟩ := flattenAll_append_inj a b hx hy (List.cons.inj hout).2
    exact ⟨rfl, rfl⟩

/-- A list of commands is written by one tree program at most. -/
theorem flattenAll_inj {a b : List Node} (h : flattenAll a = flattenAll b) : a = b :=
  (flattenAll_append_inj a b .nothing .nothing (by simpa using h)).1

end Node

/-! ## Trees from checked brackets -/

theorem bracketOfChar?_eq_none {x : Char} (h : bracketOfChar? x = none) :
    Command.ofChar? x = none ∨ ∃ c, Command.ofChar? x = some c ∧ c.bracket? = none := by
  cases hx : Command.ofChar? x with
  | none => exact Or.inl rfl
  | some c => exact Or.inr ⟨c, rfl, by simpa [bracketOfChar?, hx] using h⟩

theorem ofChar?_of_bracket {x : Char} {b : Bracket} (h : bracketOfChar? x = some b) :
    Command.ofChar? x = some b.command :=
  Command.ofChar?_eq_some_iff.mpr (bracketOfChar?_eq_some_iff.mp h)

/--
The commands of a checked text are those of a tree program, and of one more after each bracket that was still open
at the beginning and is closed by then.
-/
theorem exists_parts_of_checkBrackets {here : Nat} {opened : List Nat} {xs : List Char}
    (checked : checkBrackets here opened xs = .ok ()) :
    ∃ (first : List Node) (rests : List (List Node)), rests.length = opened.length ∧
      xs.filterMap Command.ofChar? =
        Node.flattenAll first ++ rests.flatMap fun nodes => .closeLoop :: Node.flattenAll nodes := by
  fun_induction checkBrackets here opened xs with
  | case1 => exact ⟨[], [], rfl, by simp⟩
  | case2 => cases checked
  | case3 here opened x xs hx ih =>
    obtain ⟨first, rests, hlen, hsplit⟩ := ih checked
    rcases bracketOfChar?_eq_none hx with hcomment | ⟨c, hc, plain⟩
    · exact ⟨first, rests, hlen, by rw [List.filterMap_cons_none hcomment, hsplit]⟩
    · exact ⟨.command c plain :: first, rests, hlen, by simp [List.filterMap_cons_some hc, hsplit]⟩
  | case4 here opened x xs hx ih =>
    -- What is read up to the partner of this bracket becomes the body of a loop.
    obtain ⟨body, rests, hlen, hsplit⟩ := ih checked
    obtain ⟨first, rests, rfl⟩ := List.exists_cons_of_length_eq_add_one hlen
    refine ⟨.loop body :: first, rests, by simpa using hlen, ?_⟩
    simp [List.filterMap_cons_some (ofChar?_of_bracket hx), Bracket.command, hsplit]
  | case5 => cases checked
  | case6 here x xs place opened hx ih =>
    obtain ⟨first, rests, hlen, hsplit⟩ := ih checked
    refine ⟨[], first :: rests, by simp [hlen], ?_⟩
    simp [List.filterMap_cons_some (ofChar?_of_bracket hx), Bracket.command, hsplit]

/-! ## The tree of a parsed text -/

theorem parse_eq_ok_iff {source : String} {commands : List Command} : parse source = .ok commands ↔
    checkBrackets 0 [] source.toList = .ok () ∧ commands = source.toList.filterMap Command.ofChar? := by
  unfold parse
  cases h : checkBrackets 0 [] source.toList with
  | ok u => simp [eq_comm]
  | error fault => simp

/-- A parsed text is written by exactly one tree program. -/
theorem exists_tree_of_parse {source : String} {commands : List Command} (parsed : parse source = .ok commands) :
    ∃ nodes, ∀ other, Node.flattenAll other = commands ↔ other = nodes := by
  obtain ⟨checked, hcommands⟩ := parse_eq_ok_iff.mp parsed
  obtain ⟨first, rests, hlen, hsplit⟩ := exists_parts_of_checkBrackets checked
  obtain rfl := List.length_eq_zero_iff.mp hlen
  obtain rfl : commands = Node.flattenAll first := by simpa [hsplit] using hcommands
  exact ⟨first, fun other => ⟨Node.flattenAll_inj, fun h => h ▸ rfl⟩⟩

end Rewind
