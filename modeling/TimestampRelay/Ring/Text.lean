/-
A ring and its two parties as text. No slot is shown.
-/
import TimestampRelay.Ring.Basic

namespace TimestampRelay.Ring

variable {α : Type}

def record (r : Ring α) : Text.Record where
  name := "BoundedRing"
  fields :=
    [("capacity", toString r.capacity.slots), ("write", toString r.write), ("read", toString r.read),
      ("len", toString r.len)]
  partlyShown := true

/-- One party: its own cursor, and what it remembers of the other's. -/
def partyRecord (name : String) (capacity : Capacity) (own cached : UInt64) : Text.Record where
  name := name
  fields :=
    [("capacity", toString capacity.slots), ("cursor", toString own), ("cached_peer", toString cached)]
  partlyShown := true

def producerRecord (r : Ring α) : Text.Record :=
  partyRecord "RingProducer" r.capacity r.producer.write r.producer.cachedRead

def consumerRecord (r : Ring α) : Text.Record :=
  partyRecord "RingConsumer" r.capacity r.consumer.read r.consumer.cachedWrite

/-- The ring and its two parties. -/
def records (r : Ring α) : List Text.Record :=
  [r.record, r.producerRecord, r.consumerRecord]

end TimestampRelay.Ring
