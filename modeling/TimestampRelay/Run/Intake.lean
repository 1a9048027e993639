/-
The loop of the source: it pulls a burst of events from the feed and hands it on, until the feed ends
or the source is told to stop.
-/
import TimestampRelay.Run.Handoff
import TimestampRelay.Run.Worker

namespace TimestampRelay

/-- What the source does next. -/
inductive IntakePoint where
  | readSignal
  | readNeighbour
  /-- Pull one more event to those held. -/
  | pull (held : Array Descriptor)
  /-- Hand a burst on. The feed has ended behind the last one. -/
  | push (burst : Handoff Descriptor) (isLast : Bool)
  deriving DecidableEq

/-- The loop of the source. -/
structure Intake where
  point : IntakePoint
  tally : Tally
  deriving DecidableEq

namespace Intake

def first : Intake :=
  ⟨.readSignal, {}⟩

/-- Counts the held events as received and begins to hand them on. -/
def handOn (held : Array Descriptor) (isLast : Bool) (tally : Tally) : Intake where
  point := .push (.start held.toList) isLast
  tally := { tally with received := tally.received + held.size }

/-- Goes on with the held events: a burst that is not complete pulls one more. -/
def gather (burst : Nat) (held : Array Descriptor) (tally : Tally) : Next Intake :=
  if held.size < burst then .loop ⟨.pull held, tally⟩
  else if held.isEmpty then .exit ⟨.pull held, tally⟩ .inputExhausted
  else .loop (handOn held false tally)

/-- The feed has ended: what is held is handed on as the last burst. -/
def close (held : Array Descriptor) (tally : Tally) : Next Intake :=
  if held.isEmpty then .exit ⟨.pull held, tally⟩ .inputExhausted
  else .loop (handOn held true tally)

/-- Goes on behind a step of handing a burst on. -/
def afterPush (burst : Handoff Descriptor) (isLast : Bool) (tally : Tally) : Next Intake :=
  match burst.point with
  | .over interrupted =>
    let tally := { tally with forwarded := tally.forwarded + burst.pushed }
    match interrupted with
    | some reason => .exit ⟨.push burst isLast, tally⟩ reason
    | none =>
      if isLast then .exit ⟨.push burst isLast, tally⟩ .inputExhausted
      else .loop ⟨.readSignal, tally⟩
  | _ => .loop ⟨.push burst isLast, tally⟩

/-- One step, on what the source shares and the number of calls made to the feed. -/
def step (job : Job) (o : Outlet Descriptor) (calls : Nat) (s : Intake) :
    Outlet Descriptor × Nat × Next Intake :=
  match s.point with
  | .readSignal =>
    (o, calls, if o.signal then .exit s .shutdown else .loop { s with point := .readNeighbour })
  | .readNeighbour =>
    (o, calls, if o.neighbourDone then .exit s .downstreamStopped else gather job.burst #[] s.tally)
  | .pull held =>
    let next :=
      match job.workload.feed calls with
      | .event d => gather job.burst (held.push d) s.tally
      | .ended => close held s.tally
      | .broken => .broken s
    (o, calls + 1, next)
  | .push burst isLast =>
    let (o, burst) := burst.step job.drainRetries o
    (o, calls, afterPush burst isLast s.tally)

end Intake

end TimestampRelay
