/-
A recorder that takes in a stream of timestamps and keeps its first and its last few, their number,
and how often a value was smaller than the one before it.
-/
import TimestampRelay.Text.Record

namespace TimestampRelay

structure Recorder where
  /-- How many values are kept at either end. -/
  keep : Nat
  first : List UInt64
  last : List UInt64
  count : Nat
  previous : Option UInt64
  backwardSteps : Nat
  deriving DecidableEq

namespace Recorder

/-- How many values are kept unless said otherwise. -/
def defaultKeep : Nat := 10

def empty (keep : Nat) : Recorder where
  keep := keep
  first := []
  last := []
  count := 0
  previous := none
  backwardSteps := 0

/-- Whether a value is smaller than the one before it. -/
def stepsBack (previous : Option UInt64) (value : UInt64) : Bool :=
  match previous with
  | some p => value < p
  | none => false

/-- The window of last values moved on by one value. -/
def slide (keep : Nat) (window : List UInt64) (value : UInt64) : List UInt64 :=
  if keep = 0 then window
  else if window.length = keep then window.tail ++ [value]
  else window ++ [value]

/-- Takes in one value. -/
def deliver (r : Recorder) (value : UInt64) : Recorder where
  keep := r.keep
  first := if r.first.length < r.keep then r.first ++ [value] else r.first
  last := slide r.keep r.last value
  count := r.count + 1
  previous := some value
  backwardSteps := r.backwardSteps + if stepsBack r.previous value then 1 else 0

/-- Takes in values in order. -/
def deliverAll (r : Recorder) (values : List UInt64) : Recorder :=
  values.foldl deliver r

def text (r : Recorder) : String :=
  Text.Record.line
    { name := "RecordingSink"
      fields :=
        [("keep", toString r.keep), ("first", Text.list (r.first.map toString)),
          ("last", Text.list (r.last.map toString)), ("count", toString r.count),
          ("previous", Text.optional toString r.previous),
          ("backward_steps", toString r.backwardSteps)] }

end Recorder

end TimestampRelay
