/-
A pipeline: a configuration, a shutdown signal that outlives its runs, and the states of its three
stages. A run begins with two fresh rings and ends with the outcome that the stages bring about; the
pipeline keeps the signal and the states that the run left behind.
-/
import TimestampRelay.Config
import TimestampRelay.Machine
import TimestampRelay.Run.World
import TimestampRelay.Signal

namespace TimestampRelay

structure Pipeline where
  config : Config
  /-- Whether the shutdown signal is raised. -/
  signal : Bool
  states : PerStage StageState

namespace Pipeline

/-- The pipeline that settings amount to, or their first fault. All its stages are stopped. -/
def ofSettings (s : Settings) : Except Fault Pipeline := do
  let config ← s.config
  return { config := config, signal := s.signal, states := ⟨.stopped, .stopped, .stopped⟩ }

/-- The core that refuses a stage, if the stage asks for one that does. -/
def refused (p : Pipeline) (m : Machine) (stage : StageKind) : Option (UInt64 × MachineFault) :=
  match p.config.cores with
  | some cores => (m.refusal? stage (cores.get stage)).map (cores.get stage, ·)
  | none => none

/-- What a run of the pipeline is given. -/
def job (p : Pipeline) (m : Machine) (load : Workload) : Job where
  burst := p.config.burst
  drainRetries := p.config.drainRetries.toNat
  expected := p.config.expected.map UInt64.toNat
  start := .ofSeed p.config.field p.config.seed
  strict := p.config.strict
  refused := p.refused m
  workload := load

/-- A fresh ring, touched all over if the configuration wants that. -/
def freshRing {α : Type} [Inhabited α] (p : Pipeline) (capacity : Capacity) : Ring α :=
  if p.config.prefault then (Ring.empty capacity).prefault else .empty capacity

/-- The fault of memory that was to be locked and could not be, where that is not let pass. -/
def lockFault? (p : Pipeline) (m : Machine) : Option Fault :=
  if p.config.lockMemory && p.config.strict then m.refusesLock.map .memoryLock else none

/-- A run of the pipeline that is about to begin. -/
def launch (p : Pipeline) (m : Machine) : Except Fault World :=
  match p.lockFault? m with
  | some fault => .error fault
  | none => .ok (.start p.signal p.states (p.freshRing p.config.inbound) (p.freshRing p.config.outbound))

/-- The pipeline behind a run. -/
def settle (p : Pipeline) (w : World) : Pipeline :=
  { p with signal := w.signal, states := w.states }

def text (p : Pipeline) : String :=
  Text.Record.line
    { name := "Pipeline"
      fields :=
        [("config", p.config.text), ("shutdown", signalText p.signal),
          ("states", Text.list (p.states.toList.map StageState.cellText))] }

end Pipeline

end TimestampRelay
