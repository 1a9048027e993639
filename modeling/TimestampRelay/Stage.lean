/-
The three stages of a pipeline and what can be said of one: which it is, the state it is in, why
it left its loop, and the report it leaves behind.
-/
import TimestampRelay.Text.Record

namespace TimestampRelay

/-- The stages, in the order in which events pass them. -/
inductive StageKind where
  | source
  | extender
  | sink
  deriving DecidableEq

namespace StageKind

/-- Position in the pipeline, the source first. -/
def index : StageKind → Nat
  | source => 0
  | extender => 1
  | sink => 2

/-- The stage as it is named in messages. -/
def label : StageKind → String
  | source => "source"
  | extender => "extender"
  | sink => "sink"

/-- The stage as it is named in the text of values. -/
def name : StageKind → String
  | source => "Source"
  | extender => "Extender"
  | sink => "Sink"

end StageKind

/-- One value for each stage. -/
structure PerStage (α : Type) where
  source : α
  extender : α
  sink : α
  deriving DecidableEq

namespace PerStage

variable {α β : Type}

/-- The value of one stage. -/
def get (p : PerStage α) : StageKind → α
  | .source => p.source
  | .extender => p.extender
  | .sink => p.sink

/-- A change of all three values. -/
def map (f : α → β) (p : PerStage α) : PerStage β :=
  ⟨f p.source, f p.extender, f p.sink⟩

/-- The three values, the source's first. -/
def toList (p : PerStage α) : List α :=
  [p.source, p.extender, p.sink]

@[simp] theorem get_map (f : α → β) (p : PerStage α) (k : StageKind) :
    (p.map f).get k = f (p.get k) := by
  cases k <;> rfl

end PerStage

/-- The live state of a stage. It drains when the shutdown signal finds it holding items that it could
not push yet; a stage that takes part in no run is stopped. -/
inductive StageState where
  | running
  | draining
  | stopped
  deriving DecidableEq

namespace StageState

/-- The state as a small number, as it is stored. -/
def code : StageState → Nat
  | running => 0
  | draining => 1
  | stopped => 2

def name : StageState → String
  | running => "Running"
  | draining => "Draining"
  | stopped => "Stopped"

/-- The text of a cell that holds the state. -/
def cellText (s : StageState) : String :=
  "StateCell(" ++ toString s.code ++ ")"

end StageState

/-- Why a stage left its loop. -/
inductive ExitReason where
  /-- There is nothing more to take in. -/
  | inputExhausted
  /-- The sink has delivered as many items as were asked for. -/
  | expectedReached
  /-- The shutdown signal was seen raised. -/
  | shutdown
  /-- The neighbour that takes this stage's output has stopped. -/
  | downstreamStopped
  deriving DecidableEq

def ExitReason.name : ExitReason → String
  | inputExhausted => "InputExhausted"
  | expectedReached => "ExpectedReached"
  | shutdown => "Shutdown"
  | downstreamStopped => "DownstreamStopped"

/-- Counts of items that a stage took in and that it handed on. -/
structure Tally where
  received : Nat := 0
  forwarded : Nat := 0
  deriving DecidableEq

/-- What one stage did during a run. Items taken in and not handed on were dropped. -/
structure StageReport where
  kind : StageKind
  state : StageState
  exit : ExitReason
  received : Nat
  forwarded : Nat
  dropped : Nat
  deriving DecidableEq

/-- The report of a stage that stopped with the given counts. -/
def Tally.report (t : Tally) (kind : StageKind) (exit : ExitReason) : StageReport where
  kind := kind
  state := .stopped
  exit := exit
  received := t.received
  forwarded := t.forwarded
  dropped := t.received - t.forwarded

def StageReport.text (r : StageReport) : String :=
  Text.Record.line
    { name := "StageReport"
      fields :=
        [("kind", r.kind.name), ("state", r.state.name), ("exit", r.exit.name),
          ("received", toString r.received), ("forwarded", toString r.forwarded),
          ("dropped", toString r.dropped)] }

end TimestampRelay
