import Rewind.Pointer
import Rewind.Tape

/-!
# Events

What happens while a machine works. Four events are written to the log (`Event.record?`); the others tell each
change of the tape, so that its whole course can be followed.
-/

namespace Rewind

/-- Something that happened. -/
inductive Event
  /-- An instruction was executed, and then the pointer stood here. -/
  | executed (symbol : String) (pointer : Pointer Nat)
  /-- An instruction was undone, and then the pointer stood here. -/
  | undid (symbol : String) (pointer : Pointer Nat)
  /-- A program was loaded. -/
  | loaded (count : Nat)
  /-- The pointer was on an index that the program just loaded does not have, and moved to the end. -/
  | stranded (index count : Nat)
  /-- The tape changed. -/
  | tape (change : Tape.Change)
  deriving DecidableEq

/-- How much a record of the log matters. -/
inductive Level
  | debug
  | warning
  deriving DecidableEq

/-- A line of the log. -/
structure Record where
  level : Level
  message : String
  deriving DecidableEq

namespace Event

/-- The line of the log that tells of an event. -/
def record? : Event → Option Record
  | executed symbol pointer =>
    let place := pointer.text
    some ⟨.debug, s!"executed {symbol}, now at {place}"⟩
  | undid symbol pointer =>
    let place := pointer.text
    some ⟨.debug, s!"undid {symbol}, now at {place}"⟩
  | loaded count => some ⟨.debug, s!"loaded {count} instructions"⟩
  | stranded index count =>
    some ⟨.warning,
      s!"instruction pointer {index} is past the new program of {count} instructions, moving it to the end"⟩
  | tape _ => none

/-- The log of a list of events, oldest first. -/
def log (events : List Event) : List Record := events.filterMap record?

@[simp] theorem log_nil : log [] = [] := rfl

@[simp] theorem log_append (es fs : List Event) : log (es ++ fs) = log es ++ log fs := List.filterMap_append

@[simp] theorem log_tape (c : Tape.Change) (es : List Event) : log (tape c :: es) = log es := rfl

end Event

end Rewind
