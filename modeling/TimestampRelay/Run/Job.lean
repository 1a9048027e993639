/-
What a run is given: its sizes and limits, the events it is fed, and the misfortunes that befall it.
-/
import TimestampRelay.Counter.Unwrapper

namespace TimestampRelay

/-- What the feed answers to one call. -/
inductive Pull where
  | event (d : Descriptor)
  /-- There is nothing more. -/
  | ended
  /-- The feed broke off. -/
  | broken
  deriving DecidableEq

/-- Where the items of a run come from and where they go: the feed's answer to each call, the first
being call 0, and the deliveries, counted from 1, at which the receiver breaks off. -/
structure Workload where
  feed : Nat → Pull
  breaksAt : Nat → Bool

/-- A feed that answers with the given events and has ended behind them; `none` among them is an end
that a later call may go past. -/
def Pull.ofEvents (events : Array (Option Descriptor)) (call : Nat) : Pull :=
  match events[call]? with
  | some (some d) => .event d
  | _ => .ended

/-- A run's sizes and limits, its workload, and the cores that refuse a stage. -/
structure Job where
  burst : Nat
  /-- Attempts to push that are left to a stage which drains. -/
  drainRetries : Nat
  /-- Deliveries after which the sink stops. -/
  expected : Option Nat
  /-- The reconstruction that the extender starts from. -/
  start : Unwrapper
  /-- Whether a stage that its core refuses gives up. -/
  strict : Bool
  /-- The core that refuses a stage, and its refusal. -/
  refused : StageKind → Option (UInt64 × MachineFault)
  workload : Workload

end TimestampRelay
