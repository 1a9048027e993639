/-
A run as it stands: the signal, the two rings, the three stages, and what has been pulled and
delivered. A move is one shared action of one stage, or something done from outside. Every
interleaving of the stages is a list of moves.
-/
import TimestampRelay.Report
import TimestampRelay.Run.Delivery
import TimestampRelay.Run.Extension
import TimestampRelay.Run.Intake

namespace TimestampRelay

/-- What parties other than the stages did with the rings: what they took, and how many items of each
offer went in. -/
structure Outside where
  takenInbound : Array Descriptor := #[]
  takenOutbound : Array UInt64 := #[]
  accepted : Array Nat := #[]

/-- A run as it stands. -/
structure World where
  signal : Bool
  inbound : Ring Descriptor
  outbound : Ring UInt64
  source : Worker Intake
  extender : Worker Extension
  sink : Worker Delivery
  /-- Calls made to the feed. -/
  calls : Nat
  /-- What the sink has delivered, in order. -/
  delivered : Array UInt64
  outside : Outside

namespace World

/-- A run that is about to begin: no stage has done anything. -/
def start (signal : Bool) (states : PerStage StageState) (inbound : Ring Descriptor)
    (outbound : Ring UInt64) : World where
  signal := signal
  inbound := inbound
  outbound := outbound
  source := .waiting states.source
  extender := .waiting states.extender
  sink := .waiting states.sink
  calls := 0
  delivered := #[]
  outside := {}

/-- One stage by itself, about to show that it runs. The others take no part; `done` are the completion
flags that they show. -/
def lone (signal : Bool) (done : PerStage Bool) (inbound : Ring Descriptor) (outbound : Ring UInt64) :
    World where
  signal := signal
  inbound := inbound
  outbound := outbound
  source := ⟨.enter, .stopped, done.source⟩
  extender := ⟨.enter, .stopped, done.extender⟩
  sink := ⟨.enter, .stopped, done.sink⟩
  calls := 0
  delivered := #[]
  outside := {}

/-- The completion flags of the stages. -/
def done (w : World) : PerStage Bool :=
  ⟨w.source.done, w.extender.done, w.sink.done⟩

/-- The live states of the stages. -/
def states (w : World) : PerStage StageState :=
  ⟨w.source.state, w.extender.state, w.sink.state⟩

def hasEnded (w : World) : StageKind → Bool
  | .source => w.source.hasEnded
  | .extender => w.extender.hasEnded
  | .sink => w.sink.hasEnded

/-! ## Steps of the stages -/

/-- What the source shares. -/
def sourceOutlet (w : World) : Outlet Descriptor :=
  ⟨w.inbound, w.signal, w.extender.done, w.source.state⟩

/-- What the extender shares with the sink. -/
def extenderOutlet (w : World) : Outlet UInt64 :=
  ⟨w.outbound, w.signal, w.sink.done, w.extender.state⟩

def stepSource (job : Job) (w : World) : World :=
  match w.source.position with
  | .loop s =>
    let (o, calls, next) := s.step job w.sourceOutlet w.calls
    { w with
      inbound := o.ring
      calls := calls
      source := { w.source with state := o.state, position := next.position } }
  | _ =>
    let (source, signal) := w.source.advance job .source Intake.first w.signal
    { w with source := source, signal := signal }

def stepExtender (job : Job) (w : World) : World :=
  match w.extender.position with
  | .loop s =>
    let (inbound, o, next) := s.step job w.inbound w.source.done w.extenderOutlet
    { w with
      inbound := inbound
      outbound := o.ring
      extender := { w.extender with state := o.state, position := next.position } }
  | _ =>
    let (extender, signal) := w.extender.advance job .extender (Extension.first job.start) w.signal
    { w with extender := extender, signal := signal }

def stepSink (job : Job) (w : World) : World :=
  match w.sink.position with
  | .loop s =>
    let (outbound, delivered, next) := s.step job w.outbound w.signal w.extender.done w.delivered
    { w with
      outbound := outbound
      delivered := delivered
      sink := { w.sink with position := next.position } }
  | _ =>
    let (sink, signal) := w.sink.advance job .sink Delivery.first w.signal
    { w with sink := sink, signal := signal }

/-- One shared action of one stage. -/
def step (job : Job) (w : World) : StageKind → World
  | .source => w.stepSource job
  | .extender => w.stepExtender job
  | .sink => w.stepSink job

/-! ## Moves -/

/-- One thing that can happen in a run. All but the steps are done from outside: the signal is raised,
the completion flag of a stage that takes no part is set, and items are taken from a ring or offered
to it. -/
inductive Move where
  | step (stage : StageKind)
  | raiseSignal
  | finish (stage : StageKind)
  | takeInbound (count : Nat)
  | takeOutbound (count : Nat)
  | offerInbound (items : List Descriptor)
  | offerOutbound (items : List UInt64)
  deriving DecidableEq

/-- Sets the completion flag of a stage. -/
def finish (w : World) : StageKind → World
  | .source => { w with source := { w.source with done := true } }
  | .extender => { w with extender := { w.extender with done := true } }
  | .sink => { w with sink := { w.sink with done := true } }

def apply (job : Job) (w : World) : Move → World
  | .step stage => w.step job stage
  | .raiseSignal => { w with signal := true }
  | .finish stage => w.finish stage
  | .takeInbound count =>
    let (items, inbound) := w.inbound.popUpTo count
    { w with
      inbound := inbound
      outside := { w.outside with takenInbound := w.outside.takenInbound.appendList items } }
  | .takeOutbound count =>
    let (items, outbound) := w.outbound.popUpTo count
    { w with
      outbound := outbound
      outside := { w.outside with takenOutbound := w.outside.takenOutbound.appendList items } }
  | .offerInbound items =>
    let (n, inbound) := w.inbound.pushAll items
    { w with inbound := inbound, outside := { w.outside with accepted := w.outside.accepted.push n } }
  | .offerOutbound items =>
    let (n, outbound) := w.outbound.pushAll items
    { w with outbound := outbound, outside := { w.outside with accepted := w.outside.accepted.push n } }

/-- Moves made one after the other. -/
def applyAll (job : Job) (w : World) (moves : List Move) : World :=
  moves.foldl (apply job) w

/-! ## The end of a run -/

/-- What became of a stage, once it has ended. -/
def result? (w : World) : StageKind → Option (Except Fault StageReport)
  | .source => ended? Intake.tally .source w.source
  | .extender => ended? Extension.tally .extender w.extender
  | .sink => ended? Delivery.tally .sink w.sink
where
  ended? {β : Type} (tally : β → Tally) (kind : StageKind) (worker : Worker β) :
      Option (Except Fault StageReport) :=
    match worker.position with
    | .ended ending => some (ending.result tally kind)
    | _ => none

/-- The outcome of a run whose stages have all ended: the fault of the earliest stage that has one, in the
order source, extender, sink, or else the report. -/
def outcome? (job : Job) (w : World) : Option (Except Fault RunReport) := do
  let source ← w.result? .source
  let extender ← w.result? .extender
  let sink ← w.result? .sink
  return do
    let source ← source
    let extender ← extender
    let sink ← sink
    return {
      stages := ⟨source, extender, sink⟩
      inboundResident := w.inbound.len
      outboundResident := w.outbound.len
      expected := job.expected
      shutdownRequested := w.signal }

end World

end TimestampRelay
