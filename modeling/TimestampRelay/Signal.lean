/-
Shutdown signals: handles that share one flag, which is raised at most once and never lowered.
-/
import TimestampRelay.Text.Record

namespace TimestampRelay

/-- The text of a signal that is raised or not. -/
def signalText (raised : Bool) : String :=
  Text.Record.line { name := "ShutdownSignal", fields := [("requested", toString raised)] }

/-- Several handles on shutdown signals: the flags, and for each handle the flag it shares. -/
structure SignalBoard where
  flags : List Bool
  handles : List Nat

namespace SignalBoard

/-- One handle on one signal that is not raised. -/
def single : SignalBoard :=
  ⟨[false], [0]⟩

/-- A further handle on the signal of handle `i`. -/
def share (b : SignalBoard) (i : Nat) : SignalBoard :=
  { b with handles := b.handles ++ (b.handles[i]?).toList }

/-- A handle on a signal of its own. -/
def add (b : SignalBoard) : SignalBoard :=
  ⟨b.flags ++ [false], b.handles ++ [b.flags.length]⟩

/-- Raises the signal of handle `i`. -/
def raise (b : SignalBoard) (i : Nat) : SignalBoard :=
  match b.handles[i]? with
  | some flag => { b with flags := b.flags.set flag true }
  | none => b

/-- What each handle reads. -/
def readings (b : SignalBoard) : List Bool :=
  b.handles.map fun flag => b.flags.getD flag false

/-- The operations on a board. -/
inductive Move where
  | share (handle : Nat)
  | add
  | raise (handle : Nat)

def apply (b : SignalBoard) : Move → SignalBoard
  | .share i => b.share i
  | .add => b.add
  | .raise i => b.raise i

end SignalBoard

end TimestampRelay
