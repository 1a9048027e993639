/-
Settings of a pipeline and what makes them valid. Settings are given one by one, the last of a kind
counts, and those not given keep their defaults. A configuration is what valid settings amount to;
of several faults the first is reported, in the order inbound capacity, outbound capacity, burst, width.
-/
import TimestampRelay.Counter.Field
import TimestampRelay.Ring.Capacity

namespace TimestampRelay

/-- One setting. -/
inductive Setting where
  | inboundCapacity (slots : UInt64)
  | outboundCapacity (slots : UInt64)
  | burst (items : UInt64)
  | fieldWidth (bits : UInt32)
  /-- The full-width timestamp that the reconstruction starts from. -/
  | seed (timestamp : UInt64)
  | expected (items : UInt64)
  | drainRetries (attempts : UInt32)
  | cores (cores : PerStage UInt64)
  | lockMemory (wanted : Bool)
  | prefault (wanted : Bool)
  | strict (wanted : Bool)
  /-- A shutdown signal that exists already, raised or not. -/
  | sharedSignal (raised : Bool)
  deriving DecidableEq

/-- All settings. -/
structure Settings where
  inboundCapacity : UInt64 := 65536
  outboundCapacity : UInt64 := 262144
  burst : UInt64 := 32
  fieldWidth : UInt32 := 20
  seed : UInt64 := 0x1ff000
  expected : Option UInt64 := none
  drainRetries : UInt32 := 64
  cores : Option (PerStage UInt64) := none
  lockMemory : Bool := false
  prefault : Bool := true
  strict : Bool := false
  signal : Bool := false
  deriving DecidableEq

namespace Settings

/-- Gives one setting. -/
def set (s : Settings) : Setting → Settings
  | .inboundCapacity slots => { s with inboundCapacity := slots }
  | .outboundCapacity slots => { s with outboundCapacity := slots }
  | .burst items => { s with burst := items }
  | .fieldWidth bits => { s with fieldWidth := bits }
  | .seed timestamp => { s with seed := timestamp }
  | .expected items => { s with expected := some items }
  | .drainRetries attempts => { s with drainRetries := attempts }
  | .cores cores => { s with cores := some cores }
  | .lockMemory wanted => { s with lockMemory := wanted }
  | .prefault wanted => { s with prefault := wanted }
  | .strict wanted => { s with strict := wanted }
  | .sharedSignal raised => { s with signal := raised }

/-- Settings given one after the other. -/
def ofList (given : List Setting) : Settings :=
  given.foldl set {}

end Settings

/-- Settings that a pipeline can run with. -/
structure Config where
  inbound : Capacity
  outbound : Capacity
  burst : Nat
  burst_pos : 0 < burst
  burst_le : burst ≤ min inbound.slots outbound.slots
  field : CounterField
  seed : UInt64
  expected : Option UInt64
  drainRetries : UInt32
  cores : Option (PerStage UInt64)
  lockMemory : Bool
  prefault : Bool
  strict : Bool

/-- The configuration that settings amount to, or their first fault. -/
def Settings.config (s : Settings) : Except Fault Config := do
  let inbound ← Capacity.ofWord? s.inboundCapacity
  let outbound ← Capacity.ofWord? s.outboundCapacity
  if h : 0 < s.burst.toNat ∧ s.burst.toNat ≤ min inbound.slots outbound.slots then
    let field ← CounterField.ofWidth? s.fieldWidth
    return {
      inbound := inbound
      outbound := outbound
      burst := s.burst.toNat
      burst_pos := h.1
      burst_le := h.2
      field := field
      seed := s.seed
      expected := s.expected
      drainRetries := s.drainRetries
      cores := s.cores
      lockMemory := s.lockMemory
      prefault := s.prefault
      strict := s.strict }
  else throw (.invalidBurst s.burst (min s.inboundCapacity s.outboundCapacity))

def Config.text (c : Config) : String :=
  Text.Record.line
    { name := "PipelineConfig"
      fields :=
        [("inbound_capacity", toString c.inbound.slots),
          ("outbound_capacity", toString c.outbound.slots), ("burst", toString c.burst),
          ("field", c.field.text), ("seed", toString c.seed),
          ("expected", Text.optional toString c.expected),
          ("drain_retries", toString c.drainRetries),
          ("cores", Text.optional (fun cores => Text.list (cores.toList.map toString)) c.cores),
          ("lock_memory", toString c.lockMemory), ("prefault", toString c.prefault),
          ("strict_lifecycle", toString c.strict)] }

end TimestampRelay
