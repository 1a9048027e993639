/-
What can go wrong outside the traffic itself: settings that no pipeline accepts, and stages that
failed to start or to finish. A full or an empty ring is no fault.
-/
import TimestampRelay.Stage
import TimestampRelay.Text.Quoted

namespace TimestampRelay

/-- A refusal by the machine below: its kind and its own words. -/
structure MachineFault where
  kind : String
  message : String
  deriving DecidableEq

def MachineFault.text (f : MachineFault) : String :=
  Text.Record.line { name := "Custom", fields := [("kind", f.kind), ("error", Text.quoted f.message)] }

/-- The faults of a pipeline, each with what caused it. -/
inductive Fault where
  /-- A ring capacity that is no power of two. -/
  | invalidCapacity (capacity : UInt64)
  /-- A burst that is zero or that exceeds the smaller ring. -/
  | invalidBurst (burst limit : UInt64)
  /-- A field width outside 1 to 32 bits. -/
  | invalidFieldWidth (bits : UInt32)
  /-- A stage whose thread could not be started. -/
  | spawn (stage : StageKind) (cause : MachineFault)
  /-- A stage that broke off in its loop. -/
  | stagePanicked (stage : StageKind)
  /-- A stage that could not be bound to the core it asked for. -/
  | affinity (stage : StageKind) (core : UInt64) (cause : MachineFault)
  /-- Memory that could not be locked. -/
  | memoryLock (cause : MachineFault)
  deriving DecidableEq

namespace Fault

/-- The name of the kind of fault. -/
def name : Fault → String
  | invalidCapacity _ => "InvalidCapacity"
  | invalidBurst _ _ => "InvalidBurst"
  | invalidFieldWidth _ => "InvalidFieldWidth"
  | spawn _ _ => "Spawn"
  | stagePanicked _ => "StagePanicked"
  | affinity _ _ _ => "Affinity"
  | memoryLock _ => "MemoryLock"

/-- The fault in words. -/
def message : Fault → String
  | invalidCapacity capacity =>
    "ring capacity must be a non-zero power of two, got " ++ toString capacity
  | invalidBurst burst limit =>
    "burst size " ++ toString burst ++ " must be between 1 and the smaller ring capacity (" ++
      toString limit ++ ")"
  | invalidFieldWidth bits =>
    "truncated field width must be between 1 and 32 bits, got " ++ toString bits
  | spawn stage _ => "failed to spawn the " ++ stage.label ++ " stage thread"
  | stagePanicked stage => "the " ++ stage.label ++ " stage panicked"
  | affinity stage core _ =>
    "failed to pin the " ++ stage.label ++ " stage to core " ++ toString core
  | memoryLock _ => "failed to lock process memory"

/-- The refusal that lies behind the fault. -/
def cause? : Fault → Option MachineFault
  | spawn _ cause | affinity _ _ cause | memoryLock cause => some cause
  | _ => none

/-- The fault as a value with its fields. -/
def text (f : Fault) : String :=
  match f with
  | memoryLock cause => f.name ++ "(" ++ cause.text ++ ")"
  | invalidCapacity capacity => shown [("capacity", toString capacity)]
  | invalidBurst burst limit => shown [("burst", toString burst), ("limit", toString limit)]
  | invalidFieldWidth bits => shown [("bits", toString bits)]
  | spawn stage cause => shown [("stage", stage.name), ("source", cause.text)]
  | stagePanicked stage => shown [("stage", stage.name)]
  | affinity stage core cause =>
    shown [("stage", stage.name), ("core", toString core), ("source", cause.text)]
where
  /-- The fields under the fault's name. -/
  shown (fields : List (String × String)) : String :=
    Text.Record.line { name := f.name, fields := fields }

end Fault

end TimestampRelay
