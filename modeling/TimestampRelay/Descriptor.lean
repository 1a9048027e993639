/-
The record that describes one received event, and its sixteen bytes in memory.
-/
import TimestampRelay.Text.Record

namespace TimestampRelay

/-- One received event. Only the truncated timestamp is interpreted; the payload is carried along. -/
structure Descriptor where
  payloadAddr : UInt64
  payloadLen : UInt32
  truncatedTs : UInt32
  deriving DecidableEq

namespace Descriptor

/-- The descriptor of no event: all its fields are zero. -/
def blank : Descriptor :=
  ⟨0, 0, 0⟩

instance : Inhabited Descriptor :=
  ⟨blank⟩

/-- Bytes that a descriptor takes up. -/
def size : Nat := 16

/-- The descriptor's address is a multiple of this. -/
def alignment : Nat := 8

/-- The low `count` bytes of a number, the lowest first. -/
def littleEndian : Nat → Nat → List UInt8
  | 0, _ => []
  | count + 1, n => UInt8.ofNat n :: littleEndian count (n / 256)

/-- The descriptor in memory: address, length and timestamp, each with its lowest byte first. -/
def bytes (d : Descriptor) : List UInt8 :=
  littleEndian 8 d.payloadAddr.toNat ++ littleEndian 4 d.payloadLen.toNat ++
    littleEndian 4 d.truncatedTs.toNat

def text (d : Descriptor) : String :=
  Text.Record.line
    { name := "EventDescriptor"
      fields :=
        [("payload_addr", toString d.payloadAddr), ("payload_len", toString d.payloadLen),
          ("truncated_ts", toString d.truncatedTs)] }

theorem length_littleEndian (count n : Nat) : (littleEndian count n).length = count := by
  induction count generalizing n with
  | zero => rfl
  | succ count ih => simp [littleEndian, ih]

theorem length_bytes (d : Descriptor) : d.bytes.length = size := by
  simp [bytes, length_littleEndian, size]

end Descriptor

end TimestampRelay
