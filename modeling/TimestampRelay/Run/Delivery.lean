/-
The loop of the sink: it pops a burst of timestamps and delivers them one by one, until it has
delivered as many as were asked for, until there is nothing more to pop, or until it is told to stop.
It never pops more than it may still deliver, and it delivers all that it pops.
-/
import TimestampRelay.Ring.Basic
import TimestampRelay.Run.Worker

namespace TimestampRelay

/-- What the sink does next. -/
inductive DeliveryPoint where
  | readSignal
  /-- Pop up to `want` items. -/
  | pop (want : Nat)
  /-- Nothing was popped: look whether the extender has stopped. -/
  | readUpstream
  /-- The extender has stopped: look again whether the ring is empty, for it may have pushed since. -/
  | recheck
  /-- Deliver the items left of a burst of the given size. -/
  | deliver (left : List UInt64) (size : Nat)
  deriving DecidableEq

/-- The loop of the sink. Items are counted as received and forwarded when their burst is delivered. -/
structure Delivery where
  point : DeliveryPoint
  count : Nat
  deriving DecidableEq

namespace Delivery

def first : Delivery :=
  ⟨.readSignal, 0⟩

def tally (s : Delivery) : Tally :=
  ⟨s.count, s.count⟩

/-- Goes on with an unraised signal: as many items are wanted as are in a burst and still expected. -/
def want (job : Job) (s : Delivery) : Next Delivery :=
  match job.expected with
  | some expected =>
    if expected ≤ s.count then .exit s .expectedReached
    else .loop { s with point := .pop (min job.burst (expected - s.count)) }
  | none => .loop { s with point := .pop job.burst }

/-- Goes on with items that are left to deliver. -/
def proceed (s : Delivery) (left : List UInt64) (size : Nat) : Delivery :=
  if left.isEmpty then ⟨.readSignal, s.count + size⟩ else { s with point := .deliver left size }

/-- One step, on the ring that the sink pops from, the signal, the extender's completion flag and the
items delivered so far. -/
def step (job : Job) (outbound : Ring UInt64) (signal upstreamDone : Bool)
    (delivered : Array UInt64) (s : Delivery) : Ring UInt64 × Array UInt64 × Next Delivery :=
  match s.point with
  | .readSignal => (outbound, delivered, if signal then .exit s .shutdown else s.want job)
  | .pop want =>
    let (popped, outbound) := outbound.popUpTo want
    let s := if popped.isEmpty then { s with point := .readUpstream } else s.proceed popped popped.length
    (outbound, delivered, .loop s)
  | .readUpstream =>
    (outbound, delivered, .loop { s with point := if upstreamDone then .recheck else .readSignal })
  | .recheck =>
    let (exhausted, outbound) := outbound.exhausted
    (outbound, delivered,
      if exhausted then .exit s .inputExhausted else .loop { s with point := .readSignal })
  | .deliver [] size => (outbound, delivered, .loop (s.proceed [] size))
  | .deliver (value :: left) size =>
    let delivered := delivered.push value
    (outbound, delivered,
      if job.workload.breaksAt delivered.size then .broken { s with point := .deliver left size }
      else .loop (s.proceed left size))

end Delivery

end TimestampRelay
