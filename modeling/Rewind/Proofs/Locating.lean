import Mathlib.Order.Bounds.Defs
import Rewind.Proofs.Checking

/-!
# Where a text goes wrong

Whether a text is read, and which of its brackets is reported otherwise, can be told by counting (`Overclosed`) and by
looking for partners in the text as it stands (`LeftOpen`), with places that count all of its characters.

- `Culprit.isLeast` and `Culprit.isGreatest` find the bracket at fault that way;
- comments shift the places and change nothing else (`parse_fault_iff`);
- `parse_locates` puts this together.
-/

namespace Rewind

variable {text : List Char} {p : Nat}

/-! ## Counting brackets -/

/-- More loops are closed than opened. -/
def Overclosed (text : List Char) : Prop := text.count '[' < text.count ']'

instance (text : List Char) : Decidable (Overclosed text) := inferInstanceAs (Decidable (_ < _))

theorem excess_eq_count (text : List Char) :
    excess bracketOfChar? text = (text.count '[' : Int) - text.count ']' := by
  induction text with
  | nil => rfl
  | cons x text ih =>
    rw [excess_cons, ih]
    cases hx : bracketOfChar? x with
    | none =>
      have hopening : x ≠ '[' := by
        rintro rfl
        exact absurd hx (by decide)
      have hclosing : x ≠ ']' := by
        rintro rfl
        exact absurd hx (by decide)
      rw [List.count_cons_of_ne hopening, List.count_cons_of_ne hclosing]
      exact Int.zero_add _
    | some b =>
      have hchar := bracketOfChar?_eq_some_iff.mp hx
      cases b with
      | opening =>
        obtain rfl : '[' = x := hchar
        rw [List.count_cons_self, List.count_cons_of_ne (by decide)]
        simp only [Bracket.weight]
        omega
      | closing =>
        obtain rfl : ']' = x := hchar
        rw [List.count_cons_self, List.count_cons_of_ne (by decide)]
        simp only [Bracket.weight]
        omega

theorem overclosed_iff : Overclosed text ↔ excess bracketOfChar? text < 0 := by
  rw [excess_eq_count]
  unfold Overclosed
  omega

theorem never_overclosed_iff :
    (∀ n, ¬Overclosed (text.take n)) ↔ ∀ part, part <+: text → 0 ≤ excess bracketOfChar? part := by
  constructor
  · intro h part hpart
    have hcount := h part.length
    rw [← List.prefix_iff_eq_take.mp hpart, overclosed_iff] at hcount
    omega
  · intro h n hover
    rw [overclosed_iff] at hover
    have := h _ (List.take_prefix n text)
    omega

/-! ## The bracket at fault, by counting and by partners -/

/-- The bracket at place `q` of a text closes the one at place `p`. -/
structure Closes (text : List Char) (p q : Nat) : Prop where
  opening : text[p]? = some '['
  closing : text[q]? = some ']'
  lt : p < q
  balanced : Balanced bracketOfChar? ((text.take q).drop (p + 1))

/-- At place `p` of a text there is an opening bracket that nothing closes. -/
def LeftOpen (text : List Char) (p : Nat) : Prop := text[p]? = some '[' ∧ ∀ q, ¬Closes text p q

theorem closes_around {before between after : List Char} (h : Balanced bracketOfChar? between) :
    Closes (before ++ '[' :: (between ++ ']' :: after)) before.length (before.length + 1 + between.length) where
  opening := getElem?_around_left
  closing := getElem?_around_right
  lt := by omega
  balanced := by rwa [between_around]

theorem Closes.exists_around {q : Nat} (h : Closes text p q) : ∃ before between after,
    text = before ++ '[' :: (between ++ ']' :: after) ∧ before.length = p ∧ Balanced bracketOfChar? between := by
  obtain ⟨before, between, after, rfl, rfl, rfl⟩ := exists_around_both h.lt h.opening h.closing
  have hbetween := h.balanced
  rw [between_around] at hbetween
  exact ⟨before, between, after, rfl, rfl, hbetween⟩

/-- A closing bracket at fault ends the shortest part that closes too much. -/
theorem Culprit.isLeast (h : Culprit bracketOfChar? text .closing p) :
    IsLeast {n | Overclosed (text.take n)} (p + 1) := by
  cases h with
  | @early ys zs y split closing balanced =>
    subst split
    constructor
    · show Overclosed ((ys ++ y :: zs).take (ys.length + 1))
      rw [List.take_length_add_append, List.take_succ_cons, List.take_zero, overclosed_iff, excess_append,
        balanced.settled, excess_cons, excess_nil, closing]
      decide
    · intro n hn
      by_cases hlater : ys.length + 1 ≤ n
      · exact hlater
      · -- A shorter part ends in what is paired off.
        have hover : Overclosed ((ys ++ y :: zs).take n) := hn
        rw [List.take_append_of_le_length (by omega), overclosed_iff] at hover
        have := balanced.never_below _ (List.take_prefix n ys)
        omega

/-- An opening bracket at fault is the last one that is left open. -/
theorem Culprit.isGreatest (h : Culprit bracketOfChar? text .opening p) : IsGreatest {q | LeftOpen text q} p := by
  cases h with
  | @late ys zs y split opening never_below balanced =>
    obtain rfl : '[' = y := bracketOfChar?_eq_some_iff.mp opening
    subst split
    constructor
    · refine ⟨by simp, fun q closes => ?_⟩
      obtain ⟨before, between, after, hsplit, hlen, hbetween⟩ := closes.exists_around
      obtain ⟨-, hrest⟩ := List.append_inj hsplit hlen.symm
      obtain rfl := (List.cons.inj hrest).2
      exact balanced.not_balanced_before (bracketOfChar?_eq_some_iff.mpr rfl) hbetween
    · rintro q ⟨hq, single⟩
      by_cases hearlier : q ≤ ys.length
      · exact hearlier
      · -- A later one is in what is paired off, and so it is closed.
        exfalso
        obtain ⟨front, rest, hsplit, rfl⟩ := exists_around hq
        obtain ⟨inner, -, rfl⟩ := exists_around_later hsplit (Nat.lt_of_not_le hearlier)
        obtain ⟨between, z, after, rfl, hz, hbetween⟩ :=
          exists_closing_of_excess_neg (balanced.excess_after_neg opening)
        obtain rfl : ']' = z := bracketOfChar?_eq_some_iff.mp hz
        refine single (front.length + 1 + between.length) ?_
        rw [hsplit]
        exact closes_around hbetween

/-- After an opening bracket at fault the text is balanced, and after no other opening bracket it is. -/
theorem Culprit.balanced_after_iff (h : Culprit bracketOfChar? text .opening p) (q : Nat) :
    text[q]? = some '[' ∧ Balanced bracketOfChar? (text.drop (q + 1)) ↔ q = p := by
  cases h with
  | @late ys zs y split opening never_below balanced =>
    obtain rfl : '[' = y := bracketOfChar?_eq_some_iff.mp opening
    subst split
    constructor
    · rintro ⟨hq, hrest⟩
      obtain ⟨front, rest, hsplit, rfl⟩ := exists_around hq
      rw [hsplit, List.drop_length_add_append, List.drop_succ_cons, List.drop_zero] at hrest
      rcases Nat.lt_trichotomy front.length ys.length with hlt | heq | hgt
      · obtain ⟨inner, -, rfl⟩ := exists_around_later hsplit.symm hlt
        exact absurd balanced (hrest.not_balanced_after opening)
      · exact heq
      · obtain ⟨inner, -, rfl⟩ := exists_around_later hsplit hgt
        exact absurd hrest (balanced.not_balanced_after opening)
    · rintro rfl
      rw [List.drop_length_add_append, List.drop_succ_cons, List.drop_zero]
      exact ⟨by simp, balanced⟩

theorem Culprit.count_lt (h : Culprit bracketOfChar? text .opening p) : text.count ']' < text.count '[' := by
  cases h with
  | @late ys zs y split opening never_below balanced =>
    have hfront := never_below ys ⟨_, split.symm⟩
    have htotal := excess_eq_count text
    rw [split, excess_append, excess_cons, balanced.settled, opening, ← split] at htotal
    simp only [Bracket.weight] at htotal
    omega

/-! ## Comments -/

/-- What is kept of a text are its command characters. -/
theorem map_char_filterMap (text : List Char) : (text.filterMap Command.ofChar?).map Command.char =
    text.filter fun x => x ∈ Command.all.map Command.char := by
  induction text with
  | nil => rfl
  | cons x text ih =>
    cases hx : Command.ofChar? x with
    | none =>
      have hcomment : x ∉ Command.all.map Command.char := by
        intro hmem
        obtain ⟨c, -, rfl⟩ := List.mem_map.mp hmem
        rw [Command.ofChar?_char] at hx
        cases hx
      rw [List.filterMap_cons_none hx, List.filter_cons_of_neg (by simpa using hcomment), ih]
    | some c =>
      obtain rfl := Command.char_of_ofChar? hx
      have hkept : c.char ∈ Command.all.map Command.char := List.mem_map_of_mem (Command.mem_all c)
      rw [List.filterMap_cons_some hx, List.map_cons, List.filter_cons_of_pos (by simpa using hkept), ih]

theorem filterMap_map_char (commands : List Command) :
    (commands.map Command.char).filterMap Command.ofChar? = commands := by
  induction commands with
  | nil => rfl
  | cons c commands ih => rw [List.map_cons, List.filterMap_cons_some (Command.ofChar?_char c), ih]

/-- The symbols of commands, joined, are their characters. -/
theorem toList_join_symbols (commands : List Command) :
    (String.join (commands.map Command.symbol)).toList = commands.map Command.char := by
  rw [String.toList_join, List.flatMap_map]
  induction commands with
  | nil => rfl
  | cons c commands ih =>
    rw [List.flatMap_cons, ih]
    simp [Command.symbol]

/-! ## The verdict on a text -/

section Verdict

variable {source : String}

/-- The shortest part from the beginning that closes too much ends with the bracket that is reported. -/
theorem exists_parse_early (early : ∃ n, Overclosed (source.toList.take n)) :
    ∃ p : Nat, IsLeast {n | Overclosed (source.toList.take n)} (p + 1) ∧
      parse source = .error (.unmatched .closing p) := by
  obtain ⟨n, hover⟩ := early
  rcases parse_cases source with ⟨-, balanced⟩ | ⟨b, p, failed, culprit⟩
  · exact absurd hover (never_overclosed_iff.mpr balanced.never_below n)
  · cases b with
    | closing => exact ⟨p, culprit.isLeast, failed⟩
    | opening =>
      cases culprit with
      | late _ _ never_below => exact absurd hover (never_overclosed_iff.mpr never_below n)

/-- Where nothing closes too much, but too much is opened, the last bracket that is left open is reported. -/
theorem exists_parse_late (never : ∀ n, ¬Overclosed (source.toList.take n))
    (more : source.toList.count ']' < source.toList.count '[') :
    ∃ p : Nat, parse source = .error (.unmatched .opening p) ∧
      Culprit bracketOfChar? source.toList .opening p := by
  rcases parse_cases source with ⟨-, balanced⟩ | ⟨b, p, failed, culprit⟩
  · have := excess_eq_count source.toList
    rw [balanced.settled] at this
    omega
  · cases b with
    | closing => exact absurd culprit.isLeast.1 (never (p + 1))
    | opening => exact ⟨p, failed, culprit⟩

/-- Where neither too much is closed nor too much opened, the command characters are kept. -/
theorem exists_parse_ok (never : ∀ n, ¬Overclosed (source.toList.take n))
    (noMore : ¬source.toList.count ']' < source.toList.count '[') :
    ∃ commands, parse source = .ok commands ∧
      commands.map Command.char = source.toList.filter fun x => x ∈ Command.all.map Command.char := by
  rcases parse_cases source with ⟨parsed, -⟩ | ⟨b, p, failed, culprit⟩
  · exact ⟨_, parsed, map_char_filterMap source.toList⟩
  · cases b with
    | closing => exact absurd culprit.isLeast.1 (never (p + 1))
    | opening => exact absurd culprit.count_lt noMore

/-- Texts with the same command characters have the same commands. -/
theorem filterMap_eq_of_filter_eq {text text' : List Char}
    (same : (text.filter fun x => x ∈ Command.all.map Command.char) =
      text'.filter fun x => x ∈ Command.all.map Command.char) :
    text.filterMap Command.ofChar? = text'.filterMap Command.ofChar? := by
  rw [← filterMap_map_char (text.filterMap _), ← filterMap_map_char (text'.filterMap _), map_char_filterMap,
    map_char_filterMap, same]

/-- What was read is read from its own symbols again. -/
theorem parse_join_symbols {commands : List Command} (parsed : parse source = .ok commands) :
    parse (String.join (commands.map Command.symbol)) = .ok commands := by
  rw [parse_eq_ok_iff_commands, toList_join_symbols, filterMap_map_char]
  exact ⟨balanced_of_parse parsed, rfl⟩

end Verdict

/--
How a text is read. Where some part from the beginning closes too much, the last character of the shortest such part is
at fault. Otherwise, where too much is opened, it is the last bracket that is left open, which is the only opening one
with balanced text after it. Otherwise the command characters are kept. Comments shift places and change nothing else,
and what was read is read from its own symbols again.
-/
theorem parse_locates (source : String) :
    ((∃ n, Overclosed (source.toList.take n)) →
        ∃ p : Nat, IsLeast {n | Overclosed (source.toList.take n)} (p + 1) ∧
          parse source = .error (.unmatched .closing p)) ∧
      ((∀ n, ¬Overclosed (source.toList.take n)) → source.toList.count ']' < source.toList.count '[' →
        ∃ p : Nat, IsGreatest {q | LeftOpen source.toList q} p ∧
          (∀ q, source.toList[q]? = some '[' ∧ Balanced bracketOfChar? (source.toList.drop (q + 1)) ↔ q = p) ∧
          parse source = .error (.unmatched .opening p)) ∧
      ((∀ n, ¬Overclosed (source.toList.take n)) → ¬source.toList.count ']' < source.toList.count '[' →
        ∃ commands, parse source = .ok commands ∧
          commands.map Command.char = source.toList.filter fun x => x ∈ Command.all.map Command.char) ∧
      (∀ other : String,
        (other.toList.filter fun x => x ∈ Command.all.map Command.char) =
            (source.toList.filter fun x => x ∈ Command.all.map Command.char) →
          (∀ commands, parse other = .ok commands ↔ parse source = .ok commands) ∧
            ∀ b, (∃ p : Nat, parse other = .error (.unmatched b p)) ↔
              ∃ p : Nat, parse source = .error (.unmatched b p)) ∧
      ∀ commands, parse source = .ok commands → parse (String.join (commands.map Command.symbol)) = .ok commands := by
  refine ⟨exists_parse_early, fun never more => ?_, exists_parse_ok, fun other same => ?_,
    fun commands => parse_join_symbols⟩
  · obtain ⟨p, failed, culprit⟩ := exists_parse_late never more
    exact ⟨p, culprit.isGreatest, culprit.balanced_after_iff, failed⟩
  · have hcommands := filterMap_eq_of_filter_eq same
    constructor
    · intro commands
      rw [parse_eq_ok_iff_commands, parse_eq_ok_iff_commands, hcommands]
    · intro b
      rw [parse_fault_iff, parse_fault_iff, hcommands]

/-- Of several brackets without partner the first closing one is reported, and of opening ones the last. -/
theorem parse_locates_stray :
    ((∃ n, Overclosed ("é[a]][]][".toList.take n)) ∧ IsLeast {n | Overclosed ("é[a]][]][".toList.take n)} 5 ∧
        parse "é[a]][]][" = .error (.unmatched .closing 4)) ∧
      (∀ n, ¬Overclosed ("[é[]x[[]".toList.take n)) ∧ IsGreatest {q | LeftOpen "[é[]x[[]".toList q} 5 ∧
        parse "[é[]x[[]" = .error (.unmatched .opening 5) := by
  have closed : parse "é[a]][]][" = .error (.unmatched .closing 4) := rfl
  have opened : parse "[é[]x[[]" = .error (.unmatched .opening 5) := rfl
  have stray : ∃ n, Overclosed ("é[a]][]][".toList.take n) := ⟨5, by decide⟩
  have never : ∀ n, ¬Overclosed ("[é[]x[[]".toList.take n) := by
    intro n
    by_cases hn : n < 8
    · have upTo : ∀ n < 8, ¬Overclosed ("[é[]x[[]".toList.take n) := by decide
      exact upTo n hn
    · rw [List.take_of_length_le (show "[é[]x[[]".toList.length ≤ n from Nat.le_of_not_lt hn)]
      decide
  obtain ⟨p, least, failed⟩ := (parse_locates "é[a]][]][").1 stray
  cases closed.symm.trans failed
  obtain ⟨q, greatest, -, failed'⟩ := (parse_locates "[é[]x[[]").2.1 never (by decide)
  cases opened.symm.trans failed'
  exact ⟨⟨stray, least, closed⟩, never, greatest, opened⟩

end Rewind
