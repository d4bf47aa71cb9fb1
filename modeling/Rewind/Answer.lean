import Rewind.Machine

/-!
# Answers

`Answer` is what a request to a machine gives back when it succeeds.
-/

namespace Rewind

/-- What a successful request gives back. -/
inductive Answer
  | nothing
  | integer (value : Int)
  /-- The symbol of an instruction, if there was one. -/
  | symbol (symbol : Option String)
  | symbols (symbols : List String)
  | bytes (bytes : List Cell)
  | truth (value : Bool)
  | snapshot (snapshot : Option Snapshot)
  deriving DecidableEq

end Rewind
