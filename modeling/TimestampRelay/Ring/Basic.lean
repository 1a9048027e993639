/-
The bounded ring between two parties: one pushes, the other pops. Each party owns a cursor, which it
publishes after it has written or read the slots in front of it, and keeps the last it saw of the
other's published cursor. It looks at the other's cursor again only when what it remembers does not
suffice. Cursors count items modulo 2^64.
-/
import TimestampRelay.Ring.Capacity

namespace TimestampRelay

/-- The pushing party: its own write cursor, and the last it saw of the read cursor. -/
structure Producer where
  write : UInt64
  cachedRead : UInt64
  deriving DecidableEq

/-- The popping party: its own read cursor, and the last it saw of the write cursor. -/
structure Consumer where
  read : UInt64
  cachedWrite : UInt64
  deriving DecidableEq

/-- A ring with its published cursors and its two parties. -/
structure Ring (α : Type) where
  capacity : Capacity
  slots : Vector α capacity.slots
  write : UInt64
  read : UInt64
  producer : Producer
  consumer : Consumer

namespace Ring

variable {α : Type}

/-! ## Rings at rest -/

/-- An empty ring whose cursors all stand at `start`, its slots filled with the default item. -/
def startingAt [Inhabited α] (capacity : Capacity) (start : UInt64) : Ring α where
  capacity := capacity
  slots := Vector.replicate capacity.slots default
  write := start
  read := start
  producer := ⟨start, start⟩
  consumer := ⟨start, start⟩

/-- A fresh ring. -/
def empty [Inhabited α] (capacity : Capacity) : Ring α :=
  startingAt capacity 0

/-- A fresh ring of the given number of slots, if that is a power of two. -/
def ofSlots? [Inhabited α] (slots : UInt64) : Except Fault (Ring α) :=
  (Capacity.ofWord? slots).map empty

/-- How many items are published and not taken back: exact when neither party is in the middle of
something. -/
def len (r : Ring α) : Nat :=
  min (r.write - r.read).toNat r.capacity.slots

def isEmpty (r : Ring α) : Bool :=
  r.len == 0

/-- The item in the slot that a cursor stands at. -/
def item (r : Ring α) (cursor : UInt64) : α :=
  r.slots[r.capacity.slot cursor]

/-- The `count` items from a cursor on. -/
def itemsFrom (r : Ring α) (cursor : UInt64) (count : Nat) : List α :=
  (List.range count).map fun i => r.item (cursor + UInt64.ofNat i)

/-- The published items that were not taken back, the oldest first. -/
def toList (r : Ring α) : List α :=
  r.itemsFrom r.read (r.write - r.read).toNat

/-! ## The pushing party -/

/-- Slots that are free as far as the producer remembers. -/
def freeSeen (r : Ring α) : Nat :=
  r.capacity.slots - (r.producer.write - r.producer.cachedRead).toNat

/-- Looks at the published read cursor. -/
def lookAtRead (r : Ring α) : Ring α :=
  { r with producer := { r.producer with cachedRead := r.read } }

/-- Writes items to the slots from a cursor on. -/
def fill {c : Capacity} (slots : Vector α c.slots) (cursor : UInt64) : List α → Vector α c.slots
  | [] => slots
  | x :: xs => fill (slots.set (c.slot cursor) x) (cursor + 1) xs

/-- Writes items in front of the producer and publishes them. -/
def publish (r : Ring α) (items : List α) : Ring α :=
  let cursor := r.producer.write
  let next := cursor + UInt64.ofNat items.length
  { r with
    slots := fill r.slots cursor items
    write := next
    producer := { r.producer with write := next } }

/-- Pushes one item unless the ring is full. -/
def push (r : Ring α) (item : α) : Bool × Ring α :=
  if r.producer.write - r.producer.cachedRead = r.capacity.word then
    let r := r.lookAtRead
    if r.producer.write - r.producer.cachedRead = r.capacity.word then (false, r)
    else (true, r.publish [item])
  else (true, r.publish [item])

/-- Pushes as many of the items as fit, in order, and publishes them together: how many. -/
def pushAll (r : Ring α) (items : List α) : Nat × Ring α :=
  let n := items.length
  if n = 0 then (0, r)
  else
    let r := if r.freeSeen < n then r.lookAtRead else r
    let count := min n r.freeSeen
    if count = 0 then (0, r) else (count, r.publish (items.take count))

/-- Looks how many slots are free. -/
def freeSlots (r : Ring α) : Nat × Ring α :=
  let r := r.lookAtRead
  (r.freeSeen, r)

/-- Overwrites every free slot with the default item. -/
def prefault [Inhabited α] (r : Ring α) : Ring α :=
  let r := r.lookAtRead
  { r with slots := fill r.slots r.producer.write (List.replicate r.freeSeen default) }

/-! ## The popping party -/

/-- Items that are there as far as the consumer remembers. -/
def availableSeen (r : Ring α) : Nat :=
  (r.consumer.cachedWrite - r.consumer.read).toNat

/-- Looks at the published write cursor. -/
def lookAtWrite (r : Ring α) : Ring α :=
  { r with consumer := { r.consumer with cachedWrite := r.write } }

/-- Hands the slots of `count` items in front of the consumer back. -/
def release (r : Ring α) (count : Nat) : Ring α :=
  let next := r.consumer.read + UInt64.ofNat count
  { r with read := next, consumer := { r.consumer with read := next } }

/-- Pops the oldest item. -/
def pop (r : Ring α) : Option α × Ring α :=
  if r.consumer.read = r.consumer.cachedWrite then
    let r := r.lookAtWrite
    if r.consumer.read = r.consumer.cachedWrite then (none, r)
    else (some (r.item r.consumer.read), r.release 1)
  else (some (r.item r.consumer.read), r.release 1)

/-- Pops up to `n` items, oldest first, and hands their slots back together. -/
def popUpTo (r : Ring α) (n : Nat) : List α × Ring α :=
  if n = 0 then ([], r)
  else
    let r := if r.availableSeen < n then r.lookAtWrite else r
    let count := min n r.availableSeen
    if count = 0 then ([], r) else (r.itemsFrom r.consumer.read count, r.release count)

/-- Pops items to the front of a slice, as many as it has room for: how many, and the slice. -/
def popInto (r : Ring α) (slice : List α) : Nat × List α × Ring α :=
  let (items, r) := r.popUpTo slice.length
  (items.length, items ++ slice.drop items.length, r)

/-- Looks how many items are there. -/
def available (r : Ring α) : Nat × Ring α :=
  let r := r.lookAtWrite
  (r.availableSeen, r)

/-- Looks whether there is no item. -/
def exhausted (r : Ring α) : Bool × Ring α :=
  let (n, r) := r.available
  (n == 0, r)

end Ring

end TimestampRelay
