import Rewind.Program

/-!
# Reading programs

- `parse` reads a source text: commands are kept, everything else is a comment, and the brackets are checked first
  (`checkBrackets`), so that the culprit is located in the text as it stands, comments included;
- `Listing.build` reads a program in either form.
-/

namespace Rewind

/-- The bracket that a character is, if it is one. -/
def bracketOfChar? (x : Char) : Option Bracket := (Command.ofChar? x).bind Command.bracket?

/--
Checks the brackets of a text from position `at` on, with the places of the brackets that are still open, innermost
first. A closing bracket needs an open one; at the end of the text none may be left.
-/
def checkBrackets : Nat → List Nat → List Char → Except Fault Unit
  | _, [], [] => .ok ()
  | _, place :: _, [] => .error (.unmatched .opening place)
  | here, opened, x :: xs =>
    match bracketOfChar? x, opened with
    | none, _ => checkBrackets (here + 1) opened xs
    | some .opening, _ => checkBrackets (here + 1) (here :: opened) xs
    | some .closing, [] => .error (.unmatched .closing here)
    | some .closing, _ :: opened => checkBrackets (here + 1) opened xs

/-- The commands of a source text, provided that its brackets pair off. -/
def parse (source : String) : Except Fault (List Command) :=
  match checkBrackets 0 [] source.toList with
  | .ok _ => .ok (source.toList.filterMap Command.ofChar?)
  | .error fault => .error fault

/-- The command that a text is the symbol of. -/
def readSymbol (symbol : String) : Except Fault Command :=
  match Command.ofSymbol? symbol with
  | some c => .ok c
  | none => .error (.unknownSymbol symbol)

/-- The item that an entry stands for. -/
def Entry.build : Entry → Except Fault Item
  | symbol s => (readSymbol s).map .command
  | item i => .ok i

/-- The program that a listing stands for; the first entry that cannot be read is the culprit. -/
def Listing.build : Listing → Except Fault (List Item)
  | source text => (parse text).map fun commands => commands.map .command
  | entries es => es.mapM Entry.build

/-- A character is a bracket exactly when it is the character of the command that is this bracket. -/
theorem bracketOfChar?_eq_some_iff {x : Char} {b : Bracket} : bracketOfChar? x = some b ↔ b.command.char = x := by
  unfold bracketOfChar?
  rw [Option.bind_eq_some_iff]
  constructor
  · rintro ⟨c, hc, hbracket⟩
    rw [Command.bracket?_eq_some_iff.mp hbracket]
    exact Command.char_of_ofChar? hc
  · rintro rfl
    exact ⟨b.command, Command.ofChar?_char _, Command.bracket?_eq_some_iff.mpr rfl⟩

theorem readSymbol_symbol (c : Command) : readSymbol c.symbol = .ok c := by
  simp [readSymbol, Command.ofSymbol?_symbol]

end Rewind
