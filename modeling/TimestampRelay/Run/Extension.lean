/-
The loop of the extender: it pops a burst of descriptors, rebuilds their timestamps and hands them on,
until there is nothing more to pop or it is told to stop.
-/
import TimestampRelay.Run.Handoff
import TimestampRelay.Run.Worker

namespace TimestampRelay

/-- What the extender does next. -/
inductive ExtensionPoint where
  | readSignal
  | readDownstream
  | pop
  /-- Nothing was popped: look whether the source has stopped. -/
  | readUpstream
  /-- The source has stopped: look again whether the ring is empty, for it may have pushed since. -/
  | recheck
  /-- Hand a burst on. -/
  | push (burst : Handoff UInt64)
  deriving DecidableEq

/-- The loop of the extender. -/
structure Extension where
  point : ExtensionPoint
  unwrapper : Unwrapper
  tally : Tally
  deriving DecidableEq

namespace Extension

def first (start : Unwrapper) : Extension :=
  ⟨.readSignal, start, {}⟩

/-- Goes on with popped descriptors. -/
def take (s : Extension) (popped : List Descriptor) : Extension :=
  if popped.isEmpty then { s with point := .readUpstream }
  else
    let (values, unwrapper) := s.unwrapper.byLanes (popped.map Descriptor.truncatedTs)
    { point := .push (.start values)
      unwrapper := unwrapper
      tally := { s.tally with received := s.tally.received + popped.length } }

/-- Goes on behind a step of handing a burst on. -/
def afterPush (s : Extension) (burst : Handoff UInt64) : Next Extension :=
  match burst.point with
  | .over interrupted =>
    let tally := { s.tally with forwarded := s.tally.forwarded + burst.pushed }
    match interrupted with
    | some reason => .exit { s with point := .push burst, tally := tally } reason
    | none => .loop { s with point := .readSignal, tally := tally }
  | _ => .loop { s with point := .push burst }

/-- One step, on the ring that the extender pops from and on what it shares besides. -/
def step (job : Job) (inbound : Ring Descriptor) (upstreamDone : Bool) (o : Outlet UInt64)
    (s : Extension) : Ring Descriptor × Outlet UInt64 × Next Extension :=
  match s.point with
  | .readSignal =>
    (inbound, o, if o.signal then .exit s .shutdown else .loop { s with point := .readDownstream })
  | .readDownstream =>
    (inbound, o, if o.neighbourDone then .exit s .downstreamStopped else .loop { s with point := .pop })
  | .pop =>
    let (popped, inbound) := inbound.popUpTo job.burst
    (inbound, o, .loop (s.take popped))
  | .readUpstream =>
    (inbound, o, .loop { s with point := if upstreamDone then .recheck else .readSignal })
  | .recheck =>
    let (exhausted, inbound) := inbound.exhausted
    (inbound, o, if exhausted then .exit s .inputExhausted else .loop { s with point := .readSignal })
  | .push burst =>
    let (o, burst) := burst.step job.drainRetries o
    (inbound, o, s.afterPush burst)

end Extension

end TimestampRelay
