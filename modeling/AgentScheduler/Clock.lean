/-
The clock of a context: completed ticks and simulated milliseconds. Whole
milliseconds are exact; seconds are derived from them.
-/
import AgentScheduler.Binary64.Text
import AgentScheduler.Json.Decode

namespace AgentScheduler

/-- Completed ticks, elapsed milliseconds, and the milliseconds that a tick adds. -/
structure Clock where
  frames : UInt64 := 0
  elapsedMillis : Int64 := 0
  stepMillis : UInt32 := 0
  deriving DecidableEq, Inhabited

namespace Clock

/-- The clock after one more completed tick. -/
def advance (c : Clock) : Clock :=
  { c with frames := c.frames + 1, elapsedMillis := c.elapsedMillis + .ofInt c.stepMillis.toNat }

/-- One thousand, as a double. -/
def thousand : Binary64 := .ofNat 1000

/-- The elapsed seconds, as a double. -/
def elapsedSecs (c : Clock) : Binary64 := (Binary64.ofInt c.elapsedMillis.toInt).div thousand

/-- The clock with its elapsed time given in seconds, to the nearest millisecond. -/
def setElapsedSecs (c : Clock) (secs : Binary64) : Clock :=
  { c with elapsedMillis := (secs.mul thousand).roundToInt64 }

/-- The displayed text: the frames, and the seconds with three places. -/
def display (c : Clock) : String :=
  "F" ++ toString c.frames.toNat ++ " (" ++ c.elapsedSecs.fixed 3 ++ "s)"

/-- The JSON object of a clock. -/
def toJson (c : Clock) : Json :=
  .obj [("frames", .int c.frames.toNat), ("elapsed_millis", .int c.elapsedMillis.toInt),
    ("step_millis", .int c.stepMillis.toNat)]

/-- The clock that a record stands for. -/
def ofSource? (s : Json.Source) : Option Clock := do
  match ← s.fields? ["frames", "elapsed_millis", "step_millis"] with
  | [some frames, some elapsed, some step] =>
    some ⟨← frames.uint64?, ← elapsed.int64?, ← step.uint32?⟩
  | _ => none

end Clock

end AgentScheduler
