/-
A run under a schedule. The stages take turns; a cue holds one of them where it stands until
conditions are met, and then makes its moves. So a run can be led through one chosen interleaving.
-/
import TimestampRelay.Run.World

namespace TimestampRelay

/-- What a cue can wait for. -/
inductive Condition where
  | signalRaised
  /-- A stage has ended. -/
  | ended (stage : StageKind)
  | draining (stage : StageKind)
  /-- The source is about to make a call to the feed, the first being call 0. -/
  | atCall (call : Nat)
  /-- So many calls have been made to the feed. -/
  | called (count : Nat)
  /-- The sink has just made a delivery, the first being delivery 1. -/
  | atDelivery (count : Nat)
  /-- So many items have been delivered. -/
  | delivered (count : Nat)
  /-- The extender holds items that the outbound ring has no room for. -/
  | extenderStuck
  | inboundFilled
  | outboundFilled

namespace Condition

/-- Whether the extender is handing a burst on into a full ring. -/
def isStuck (w : World) : Bool :=
  match w.extender.position with
  | .loop { point := .push _, .. } => w.outbound.len == w.outbound.capacity.slots
  | _ => false

/-- Whether the source is about to call the feed. -/
def isPulling (w : World) : Bool :=
  match w.source.position with
  | .loop { point := .pull _, .. } => true
  | _ => false

def holds (w : World) : Condition → Bool
  | signalRaised => w.signal
  | ended stage => w.hasEnded stage
  | draining stage => w.states.get stage == .draining
  | atCall call => w.calls == call && isPulling w
  | called count => count ≤ w.calls
  | atDelivery count => 0 < count && w.delivered.size == count
  | delivered count => count ≤ w.delivered.size
  | extenderStuck => isStuck w
  | inboundFilled => !w.inbound.isEmpty
  | outboundFilled => !w.outbound.isEmpty

end Condition

/-- A cue: once all of `reached` holds, a stage is held there until all of `released` holds as well.
Then the moves are made, and the states of the stages are noted if asked for. -/
structure Cue where
  stage : Option StageKind := none
  reached : List Condition
  released : List Condition := []
  moves : List World.Move := []
  notesStates : Bool := false
  /-- How often the cue is given; `none` is without end. -/
  times : Option Nat := some 1

namespace Cue

def isReached (c : Cue) (w : World) : Bool :=
  c.reached.all (Condition.holds w)

/-- Whether the cue is given now. -/
def isDue (c : Cue) (w : World) : Bool :=
  c.times != some 0 && c.isReached w && c.released.all (Condition.holds w)

/-- Whether the cue holds a stage back. -/
def blocks (c : Cue) (w : World) (stage : StageKind) : Bool :=
  c.times != some 0 && c.stage == some stage && c.isReached w

/-- The cue once it has been given. -/
def spent (c : Cue) : Cue :=
  { c with times := c.times.map (· - 1) }

end Cue

/-- The cue that is due first, with the cues that remain. -/
def firstDue? (w : World) : List Cue → Option (Cue × List Cue)
  | [] => none
  | c :: cues =>
    if c.isDue w then some (c, c.spent :: cues)
    else (firstDue? w cues).map fun (due, rest) => (due, c :: rest)

/-- The stages that take turns, the next one first, and the cues that lead them. -/
structure Schedule where
  turns : List StageKind
  cues : List Cue
  /-- The states of the stages as a cue noted them. -/
  noted : Option (PerStage StageState) := none

namespace Schedule

/-- Whether a stage can take its turn. -/
def isFree (s : Schedule) (w : World) (stage : StageKind) : Bool :=
  !w.hasEnded stage && !s.cues.any (·.blocks w stage)

/-- Gives a cue. -/
def give (s : Schedule) (job : Job) (w : World) (due : Cue) (rest : List Cue) : Schedule × World :=
  let w := w.applyAll job due.moves
  ({ s with cues := rest, noted := if due.notesStates then some w.states else s.noted }, w)

/-- Moves a stage to the end of the turns. -/
def rotate (s : Schedule) (stage : StageKind) : Schedule :=
  { s with turns := s.turns.filter (· != stage) ++ [stage] }

/-- At most `limit` moves, cues first: until every stage has ended or is held back. -/
def run (job : Job) : Nat → Schedule → World → Schedule × World
  | 0, s, w => (s, w)
  | limit + 1, s, w =>
    match firstDue? w s.cues with
    | some (due, rest) =>
      let (s, w) := s.give job w due rest
      run job limit s w
    | none =>
      match s.turns.find? (s.isFree w) with
      | some stage => run job limit (s.rotate stage) (w.step job stage)
      | none => (s, w)

end Schedule

end TimestampRelay
