/-
Where the items of a run are: with the source, in the inbound ring, with the extender, in the outbound
ring, with the sink, or delivered. A stage that gives a burst up still counts as holding it.
-/
import TimestampRelay.Run.World

namespace TimestampRelay

/-- Events that the source pulled and has not pushed. -/
def Intake.held (s : Intake) : List Descriptor :=
  match s.point with
  | .pull held => held.toList
  | .push burst _ => burst.held
  | .readSignal | .readNeighbour => []

/-- Values that the extender rebuilt and has not pushed. -/
def Extension.held (s : Extension) : List UInt64 :=
  match s.point with
  | .push burst => burst.held
  | .readSignal | .readDownstream | .pop | .readUpstream | .recheck => []

/-- Values that the sink popped and has not delivered. -/
def Delivery.held (s : Delivery) : List UInt64 :=
  match s.point with
  | .deliver left _ => left
  | .readSignal | .pop _ | .readUpstream | .recheck => []

/-- What a stage holds, or gave up. -/
def Worker.held {β α : Type} (held : β → List α) (w : Worker β) : List α :=
  match w.position.last? with
  | some last => held last
  | none => []

namespace World

/-- Events that the feed has answered with, in order. -/
def pulled (job : Job) (w : World) : List Descriptor :=
  (List.range w.calls).filterMap fun call =>
    match job.workload.feed call with
    | .event d => some d
    | .ended | .broken => none

/-- The reconstruction as the extender has taken it so far. -/
def unwrapper (job : Job) (w : World) : Unwrapper :=
  match w.extender.position.last? with
  | some last => last.unwrapper
  | none => job.start

/-- Descriptors on their way to the extender, the oldest first. -/
def toExtend (w : World) : List Descriptor :=
  w.inbound.toList ++ w.source.held Intake.held

/-- Rebuilt values on their way to the end of the pipeline, the oldest first. -/
def toDeliver (w : World) : List UInt64 :=
  w.sink.held Delivery.held ++ w.outbound.toList ++ w.extender.held Extension.held

/-- The runs that an interleaving can lead to: the stages step in any order, and anyone may raise the
signal at any time. -/
inductive Reachable (job : Job) (begun : World) : World → Prop where
  | begun : Reachable job begun begun
  | step {w : World} (stage : StageKind) (h : Reachable job begun w) :
      Reachable job begun (w.apply job (.step stage))
  | raise {w : World} (h : Reachable job begun w) : Reachable job begun (w.apply job .raiseSignal)

end World

end TimestampRelay
