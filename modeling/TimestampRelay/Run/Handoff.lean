/-
Handing a held burst on: it is pushed into a ring again and again until all of it is in, until the
shutdown signal is found raised, or until the neighbour that empties the ring is found to have
stopped. One step makes one shared action: an attempt to push, or a look at the signal or the
neighbour's flag, or a change of the stage's own state.
-/
import TimestampRelay.Ring.Basic

namespace TimestampRelay

/-- What a stage that hands a burst on shares with others: the ring it pushes into, the shutdown signal,
the completion flag of the neighbour behind the ring, and its own live state. -/
structure Outlet (α : Type) where
  ring : Ring α
  signal : Bool
  neighbourDone : Bool
  state : StageState

/-- What is done next about a held burst. -/
inductive HandoffPoint where
  /-- Push what is held. -/
  | attempt
  /-- The ring was full: look at the signal. -/
  | readSignal
  /-- The signal was raised: show that the stage drains. -/
  | showDraining
  /-- Push what is held, at most `left` times more. -/
  | drain (left : Nat)
  /-- The signal was not raised: look whether the neighbour has stopped. -/
  | readNeighbour
  /-- All is pushed, or the handing on was interrupted. -/
  | over (interrupted : Option ExitReason)
  deriving DecidableEq

/-- A burst on its way into a ring: the items still held, how many are in, and what comes next. -/
structure Handoff (α : Type) where
  held : List α
  pushed : Nat
  point : HandoffPoint
  deriving DecidableEq

namespace Handoff

variable {α : Type}

/-- A burst that is about to be handed on. -/
def start (items : List α) : Handoff α where
  held := items
  pushed := 0
  point := if items.isEmpty then .over none else .attempt

/-- One attempt to push what is held: how much went in, the ring, and the burst behind it. -/
def attempt (ring : Ring α) (h : Handoff α) : Nat × Ring α × Handoff α :=
  let (n, ring) := ring.pushAll h.held
  (n, ring, { h with held := h.held.drop n, pushed := h.pushed + n })

/-- What follows an attempt: a burst that is not all in yet is tried again as long as items go in. -/
def afterAttempt (n : Nat) (held : List α) : HandoffPoint :=
  if held.isEmpty then .over none else if n = 0 then .readSignal else .attempt

/-- What follows one of the last attempts of a stage that drains. -/
def afterDrain (left : Nat) (held : List α) : HandoffPoint :=
  if held.isEmpty then .over none else if left = 0 then .over (some .shutdown) else .drain left

/-- One step. A stage that drains makes at most `drainRetries` further attempts. -/
def step (drainRetries : Nat) (o : Outlet α) (h : Handoff α) : Outlet α × Handoff α :=
  match h.point with
  | .attempt =>
    let (n, ring, h) := h.attempt o.ring
    ({ o with ring := ring }, { h with point := afterAttempt n h.held })
  | .readSignal => (o, { h with point := if o.signal then .showDraining else .readNeighbour })
  | .showDraining =>
    ({ o with state := .draining }, { h with point := afterDrain drainRetries h.held })
  | .drain left =>
    let (_, ring, h) := h.attempt o.ring
    ({ o with ring := ring }, { h with point := afterDrain (left - 1) h.held })
  | .readNeighbour =>
    (o, { h with point := if o.neighbourDone then .over (some .downstreamStopped) else .attempt })
  | .over _ => (o, h)

/-- Why the handing on was interrupted, if it is over and was. -/
def interrupted (h : Handoff α) : Option ExitReason :=
  match h.point with
  | .over interrupted => interrupted
  | _ => none

end Handoff

/-! ## A burst among others -/

/-- A burst that is being handed on while others may take items from the ring. -/
structure HandoffSession (α : Type) where
  outlet : Outlet α
  handoff : Handoff α
  /-- What the others took. -/
  taken : Array α

namespace HandoffSession

variable {α : Type}

/-- What can happen next: a step of the handing on, or something done by others. -/
inductive Move where
  | step
  | take (count : Nat)
  | raiseSignal
  | stopNeighbour
  deriving DecidableEq

def apply (drainRetries : Nat) (s : HandoffSession α) : Move → HandoffSession α
  | .step =>
    let (outlet, handoff) := s.handoff.step drainRetries s.outlet
    { s with outlet := outlet, handoff := handoff }
  | .take count =>
    let (items, ring) := s.outlet.ring.popUpTo count
    { s with outlet := { s.outlet with ring := ring }, taken := s.taken.appendList items }
  | .raiseSignal => { s with outlet := { s.outlet with signal := true } }
  | .stopNeighbour => { s with outlet := { s.outlet with neighbourDone := true } }

/-- Whether a helper that waits for the stage to drain takes an item now. -/
def helperTakes (s : HandoffSession α) (helper : Nat) : Bool :=
  0 < helper && s.outlet.state == .draining && !s.outlet.ring.isEmpty

/-- At most `limit` moves, until the handing on is over. As soon as the stage drains a helper takes up to
`helper` items one by one. -/
def run (drainRetries : Nat) (s : HandoffSession α) (helper : Nat) : Nat → HandoffSession α
  | 0 => s
  | limit + 1 =>
    if s.helperTakes helper then (s.apply drainRetries (.take 1)).run drainRetries (helper - 1) limit
    else
      match s.handoff.point with
      | .over _ => s
      | _ => (s.apply drainRetries .step).run drainRetries helper limit

end HandoffSession

end TimestampRelay
