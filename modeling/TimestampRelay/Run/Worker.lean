/-
The life of a stage around its loop: it binds itself to a core, shows that it runs, goes through its
loop, shows that it has stopped, and sets its completion flag, in this order. A stage that breaks off
raises the shutdown signal first. One step makes one shared action.
-/
import TimestampRelay.Run.Job

namespace TimestampRelay

/-- How a stage came to its end. `β` is the state of its loop. -/
inductive Ending (β : Type) where
  /-- It left its loop, which stood like this, for a reason. -/
  | returned (last : β) (exit : ExitReason)
  /-- It broke off in its loop, which stood like this. -/
  | broken (last : β)
  /-- It never ran, since a core refused it. -/
  | unpinned (core : UInt64) (cause : MachineFault)

/-- Where a stage stands. -/
inductive Position (β : Type) where
  /-- About to bind itself to a core. -/
  | bind
  /-- Refused by a core, about to raise the signal. -/
  | refused (core : UInt64) (cause : MachineFault)
  /-- About to show that it runs. -/
  | enter
  | loop (state : β)
  /-- Broken off, about to raise the signal. -/
  | broken (last : β)
  /-- About to show that it has stopped. -/
  | leave (ending : Ending β)
  /-- About to set its completion flag. -/
  | finish (ending : Ending β)
  | ended (ending : Ending β)

/-- The loop as it stood at the end, if there was one. -/
def Ending.last? {β : Type} : Ending β → Option β
  | .returned last _ | .broken last => some last
  | .unpinned _ _ => none

/-- The loop as it stands, or as it stood when the stage left it. -/
def Position.last? {β : Type} : Position β → Option β
  | .loop state | .broken state => some state
  | .leave ending | .finish ending | .ended ending => ending.last?
  | .bind | .refused _ _ | .enter => none

/-- What a step of a loop leads to. -/
inductive Next (β : Type) where
  | loop (state : β)
  | exit (last : β) (reason : ExitReason)
  | broken (last : β)

/-- The position that a step of a loop leads to. -/
def Next.position {β : Type} : Next β → Position β
  | .loop state => .loop state
  | .exit last reason => .leave (.returned last reason)
  | .broken last => .broken last

/-- A stage with its live state and its completion flag. -/
structure Worker (β : Type) where
  position : Position β
  state : StageState
  done : Bool

namespace Worker

variable {β : Type}

/-- A stage that is about to begin. -/
def waiting (state : StageState) : Worker β :=
  ⟨.bind, state, false⟩

def hasEnded (w : Worker β) : Bool :=
  match w.position with
  | .ended _ => true
  | _ => false

/-- The position of a stage behind its attempt to bind itself. -/
def afterBind (job : Job) (kind : StageKind) : Position β :=
  match job.refused kind with
  | some (core, cause) => if job.strict then .refused core cause else .enter
  | none => .enter

/-- One step outside the loop, on the stage and the signal. -/
def advance (job : Job) (kind : StageKind) (first : β) (w : Worker β) (signal : Bool) :
    Worker β × Bool :=
  match w.position with
  | .bind => ({ w with position := afterBind job kind }, signal)
  | .refused core cause => ({ w with position := .finish (.unpinned core cause) }, true)
  | .enter => ({ w with position := .loop first, state := .running }, signal)
  | .broken last => ({ w with position := .leave (.broken last) }, true)
  | .leave ending => ({ w with position := .finish ending, state := .stopped }, signal)
  | .finish ending => ({ w with position := .ended ending, done := true }, signal)
  | .loop _ | .ended _ => (w, signal)

end Worker

/-- What became of a stage at its end: its report, or its fault. -/
def Ending.result {β : Type} (tally : β → Tally) (kind : StageKind) : Ending β → Except Fault StageReport
  | .returned last exit => .ok ((tally last).report kind exit)
  | .broken _ => .error (.stagePanicked kind)
  | .unpinned core cause => .error (.affinity kind core cause)

end TimestampRelay
