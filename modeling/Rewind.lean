import Rewind.Report
import Rewind.Session
import Rewind.Tree
import Rewind.Tape.Padding
import Rewind.Tape.Course
import Rewind.Pointer.Rank
import Rewind.Proofs.Search
import Rewind.Proofs.Segments
import Rewind.Proofs.Partners
import Rewind.Proofs.Nesting
import Rewind.Proofs.Wrapping
import Rewind.Proofs.Checking
import Rewind.Proofs.Locating
import Rewind.Proofs.Agreement
import Rewind.Proofs.Hereditary
import Rewind.Proofs.Stepping
import Rewind.Proofs.Padding
import Rewind.Proofs.Repetition
import Rewind.Proofs.Retracing
import Rewind.Proofs.Attempts
import Rewind.Proofs.Course
import Rewind.Proofs.Feeding
import Rewind.Proofs.Replay
import Rewind.Proofs.Redoing
import Rewind.Proofs.Endings
import Rewind.Proofs.Iteration
import Rewind.Proofs.Trees
import Rewind.Proofs.Structured
import Rewind.Proofs.Failures
import Rewind.Proofs.Accounts
import Rewind.Proofs.Dialogue
import Rewind.Proofs.Strokes
import Rewind.Proofs.Soundness
import Rewind.Proofs.Clearing
import Rewind.Proofs.HighWater
import Rewind.Proofs.Seeking
import Rewind.Proofs.Walking
import Rewind.Proofs.HistoryStack
import Rewind.Proofs.Logging
import Rewind.Proofs.Atomicity
import Rewind.Proofs.Alike
import Rewind.Proofs.Extension
import Rewind.Proofs.FailedUndo
import Rewind.Proofs.Misplaced
import Rewind.Proofs.Clearing
