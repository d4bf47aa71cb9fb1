/-!
# Commands

The eight commands of the language, each written as one character.

- `Command.char`, `Command.symbol` and `Command.name` say how a command is written and called;
- `Command.ofChar?` and `Command.ofSymbol?` read a command back (`ofChar?_eq_some_iff`, `ofSymbol?_symbol`).
-/

namespace Rewind

/-- The commands, in the order in which they are listed. -/
inductive Command
  | moveRight
  | moveLeft
  | increment
  | decrement
  | emit
  | accept
  | openLoop
  | closeLoop
  deriving DecidableEq

namespace Command

/-- Every command once. -/
def all : List Command := [moveRight, moveLeft, increment, decrement, emit, accept, openLoop, closeLoop]

theorem mem_all (c : Command) : c ∈ all := by cases c <;> decide

/-- The character that stands for a command. -/
def char : Command → Char
  | moveRight => '>'
  | moveLeft => '<'
  | increment => '+'
  | decrement => '-'
  | emit => '.'
  | accept => ','
  | openLoop => '['
  | closeLoop => ']'

/-- A command as a text of one character. -/
def symbol (c : Command) : String := String.singleton c.char

/-- The long name of a command. -/
def name : Command → String
  | moveRight => "INCREMENT_POINTER"
  | moveLeft => "DECREMENT_POINTER"
  | increment => "INCREMENT_CELL"
  | decrement => "DECREMENT_CELL"
  | emit => "ADD_OUTPUT"
  | accept => "ACCEPT_INPUT"
  | openLoop => "OPEN_LOOP"
  | closeLoop => "CLOSE_LOOP"

/-- The command that a character stands for; every other character is a comment. -/
def ofChar? : Char → Option Command
  | '>' => some moveRight
  | '<' => some moveLeft
  | '+' => some increment
  | '-' => some decrement
  | '.' => some emit
  | ',' => some accept
  | '[' => some openLoop
  | ']' => some closeLoop
  | _ => none

/-- The command that a whole text stands for. -/
def ofSymbol? (s : String) : Option Command :=
  match s.toList with
  | [x] => ofChar? x
  | _ => none

theorem ofChar?_char (c : Command) : ofChar? c.char = some c := by cases c <;> rfl

theorem char_of_ofChar? {x : Char} {c : Command} (h : ofChar? x = some c) : c.char = x := by
  unfold ofChar? at h
  split at h <;> simp at h <;> subst h <;> rfl

/-- A character stands for a command exactly when it is the command's own. -/
theorem ofChar?_eq_some_iff {x : Char} {c : Command} : ofChar? x = some c ↔ c.char = x :=
  ⟨char_of_ofChar?, fun h => h ▸ ofChar?_char c⟩

theorem ofSymbol?_symbol (c : Command) : ofSymbol? c.symbol = some c := by
  simp [ofSymbol?, symbol, ofChar?_char]

/-- Different commands are written differently. -/
theorem symbol_inj {c d : Command} : c.symbol = d.symbol ↔ c = d :=
  ⟨fun h => by simpa [ofSymbol?_symbol] using congrArg ofSymbol? h, fun h => h ▸ rfl⟩

end Command

end Rewind
