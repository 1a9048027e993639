/-
The report of a run: what each stage did and what is left in the rings; whether the books balance
and whether the run did all it was asked to; and how long an item took.
-/
import TimestampRelay.Stage

namespace TimestampRelay

/-- The outcome of a run in which every stage returned. -/
structure RunReport where
  stages : PerStage StageReport
  /-- Items that the source pushed and the extender never popped. -/
  inboundResident : Nat
  /-- Items that the extender pushed and the sink never popped. -/
  outboundResident : Nat
  expected : Option Nat
  shutdownRequested : Bool
  deriving DecidableEq

namespace RunReport

/-- Items that reached the end of the pipeline. -/
def delivered (r : RunReport) : Nat :=
  r.stages.sink.forwarded

/-- Items that a stage took in and gave up. -/
def dropped (r : RunReport) : Nat :=
  r.stages.source.dropped + r.stages.extender.dropped + r.stages.sink.dropped

/-- Every item that a stage handed on was taken in by the next one or is still in the ring between
them, and the extender handed on or dropped all it took in. -/
def balanced (r : RunReport) : Bool :=
  r.stages.source.forwarded == r.stages.extender.received + r.inboundResident &&
    r.stages.extender.received == r.stages.extender.forwarded + r.stages.extender.dropped &&
    r.stages.extender.forwarded == r.stages.sink.received + r.outboundResident

/-- The run delivered all that was asked of it: the expected number of items, or else every item of an
input that ended. -/
def complete (r : RunReport) : Bool :=
  match r.expected with
  | some expected => r.delivered == expected
  | none =>
    r.stages.source.exit == .inputExhausted && r.dropped == 0 &&
      r.delivered == r.stages.source.received

end RunReport

/-! ## Time per item -/

/-- The double nearest to a natural number, a tie going to the even neighbour. Above 64 bits the
number is cut to 64 bits whose last one is set if anything was cut off, which rounds to the same double. -/
def nearestDouble (n : Nat) : Float :=
  if n < UInt64.size then n.toUInt64.toFloat
  else
    let cut := n.log2 - 63
    let head := n >>> cut
    let head := if head <<< cut = n then head else head ||| 1
    head.toUInt64.toFloat.scaleB cut

/-- A quantity per delivered item; zero if nothing was delivered. -/
def perItem (quantity delivered : Nat) : Float :=
  if delivered = 0 then 0 else nearestDouble quantity / nearestDouble delivered

/-- How long a run took: in whole seconds and nanoseconds beyond, and in ticks of a cycle counter. -/
structure Timing where
  secs : Nat
  nanos : Nat
  cycles : Nat
  deriving DecidableEq

namespace Timing

def totalNanos (t : Timing) : Nat :=
  t.secs * 1000000000 + t.nanos

def nanosPerItem (t : Timing) (delivered : Nat) : Float :=
  perItem t.totalNanos delivered

def cyclesPerItem (t : Timing) (delivered : Nat) : Float :=
  perItem t.cycles delivered

end Timing

end TimestampRelay
