/-
A ring in use by both parties at once. An operation is taken apart into its accesses to what the parties
share: a look at the other's published cursor, the writing or reading of one slot, and the publication
of the own cursor. Accesses happen one at a time and in any order between the parties. What a party does
by itself goes along with the access before it: its own cursor moves with the last slot of a batch, and
is published by the access after that.
-/
import TimestampRelay.Ring.Call

namespace TimestampRelay

/-! ## The pushing party -/

/-- Where the producer stands. -/
inductive Producing (α : Type) where
  /-- Between operations, with the answer of the last one. -/
  | rest (answer : Option Producer.Answer)
  /-- About to look at the published read cursor. -/
  | look (call : Producer.Call α)
  /-- About to write the first of the items left to the slot behind those written. -/
  | write (call : Producer.Call α) (left written : List α)
  /-- About to publish its cursor behind the items written. -/
  | publish (call : Producer.Call α) (written : List α)
  /-- About to overwrite the next of the free slots left. -/
  | touch (left touched : Nat)
  deriving DecidableEq

namespace Producing

variable {α : Type}

/-- The answer to a call that pushed `count` items. -/
def answer (call : Producer.Call α) (count : Nat) : Producer.Answer :=
  match call with
  | .push _ => .accepted (count != 0)
  | .pushAll _ => .pushed count
  | .freeSlots => .free count
  | .prefault => .prefaulted

/-- Goes on with items that have room: they are written, or there are none and the call is answered. -/
def beginWriting (call : Producer.Call α) (items : List α) : Producing α :=
  if items.isEmpty then .rest (some (answer call 0)) else .write call items []

/-- The first phase of a call. What the producer remembers decides whether it has to look. -/
def begin (r : Ring α) (call : Producer.Call α) : Producing α :=
  match call with
  | .push item =>
    if r.producer.write - r.producer.cachedRead = r.capacity.word then .look call
    else .write call [item] []
  | .pushAll items =>
    if items.isEmpty then .rest (some (answer call 0))
    else if r.freeSeen < items.length then .look call
    else .write call items []
  | .freeSlots | .prefault => .look call

/-- The phase behind a look, on what the producer has seen. -/
def afterLook (r : Ring α) (call : Producer.Call α) : Producing α :=
  match call with
  | .push item =>
    if r.producer.write - r.producer.cachedRead = r.capacity.word then .rest (some (answer call 0))
    else .write call [item] []
  | .pushAll items => beginWriting call (items.take r.freeSeen)
  | .freeSlots => .rest (some (answer call r.freeSeen))
  | .prefault =>
    if r.freeSeen = 0 then .rest (some (answer call 0)) else .touch r.freeSeen 0

/-- Writes one slot ahead of the producer's cursor. -/
def writeSlot (r : Ring α) (ahead : Nat) (item : α) : Ring α :=
  { r with slots := r.slots.set (r.capacity.slot (r.producer.write + UInt64.ofNat ahead)) item }

/-- Moves the producer's own cursor on by `count` items. -/
def advance (r : Ring α) (count : Nat) : Ring α :=
  { r with producer := { r.producer with write := r.producer.write + UInt64.ofNat count } }

/-- One access. -/
def step [Inhabited α] (r : Ring α) : Producing α → Ring α × Producing α
  | .rest answer => (r, .rest answer)
  | .look call => (r.lookAtRead, afterLook r.lookAtRead call)
  | .write call [] written => (advance r written.length, .publish call written)
  | .write call [x] written =>
    (advance (writeSlot r written.length x) (written.length + 1), .publish call (written ++ [x]))
  | .write call (x :: left) written =>
    (writeSlot r written.length x, .write call left (written ++ [x]))
  | .publish call written =>
    ({ r with write := r.producer.write }, .rest (some (answer call written.length)))
  | .touch left touched =>
    (writeSlot r touched default,
      if left ≤ 1 then .rest (some .prefaulted) else .touch (left - 1) (touched + 1))

end Producing

/-! ## The popping party -/

/-- Where the consumer stands. -/
inductive Consuming (α : Type) where
  /-- Between operations, with the answer of the last one. -/
  | rest (answer : Option (Consumer.Answer α))
  /-- About to look at the published write cursor. -/
  | look (call : Consumer.Call α)
  /-- About to read the slot behind those read, of which `left` are still to be read. -/
  | read (call : Consumer.Call α) (left : Nat) (got : List α)
  /-- About to publish its cursor behind the items read. -/
  | publish (call : Consumer.Call α) (got : List α)
  deriving DecidableEq

namespace Consuming

variable {α : Type}

/-- The answer to a call that popped these items, or found so many if it popped none. -/
def answer (call : Consumer.Call α) (got : List α) (found : Nat) : Consumer.Answer α :=
  match call with
  | .pop => .item got.head?
  | .popInto slice => .slice got.length (got ++ slice.drop got.length)
  | .available => .available found
  | .exhausted => .exhausted (found == 0)

/-- Goes on with so many items to read; if there are none the call is answered. -/
def beginReading (call : Consumer.Call α) (count : Nat) : Consuming α :=
  if count = 0 then .rest (some (answer call [] 0)) else .read call count []

/-- The first phase of a call. What the consumer remembers decides whether it has to look. -/
def begin (r : Ring α) (call : Consumer.Call α) : Consuming α :=
  match call with
  | .pop => if r.consumer.read = r.consumer.cachedWrite then .look call else .read call 1 []
  | .popInto slice =>
    if slice.isEmpty then .rest (some (answer call [] 0))
    else if r.availableSeen < slice.length then .look call
    else .read call slice.length []
  | .available | .exhausted => .look call

/-- The phase behind a look, on what the consumer has seen. -/
def afterLook (r : Ring α) (call : Consumer.Call α) : Consuming α :=
  match call with
  | .pop => beginReading call (if r.consumer.read = r.consumer.cachedWrite then 0 else 1)
  | .popInto slice => beginReading call (min slice.length r.availableSeen)
  | .available | .exhausted => .rest (some (answer call [] r.availableSeen))

/-- The item in the slot so far ahead of the consumer's cursor. -/
def readSlot (r : Ring α) (ahead : Nat) : α :=
  r.item (r.consumer.read + UInt64.ofNat ahead)

/-- Moves the consumer's own cursor on by `count` items. -/
def advance (r : Ring α) (count : Nat) : Ring α :=
  { r with consumer := { r.consumer with read := r.consumer.read + UInt64.ofNat count } }

/-- One access. -/
def step (r : Ring α) : Consuming α → Ring α × Consuming α
  | .rest answer => (r, .rest answer)
  | .look call => (r.lookAtWrite, afterLook r.lookAtWrite call)
  | .read call left got =>
    let item := readSlot r got.length
    if left ≤ 1 then (advance r (got.length + 1), .publish call (got ++ [item]))
    else (r, .read call (left - 1) (got ++ [item]))
  | .publish call got => ({ r with read := r.consumer.read }, .rest (some (answer call got 0)))

end Consuming

/-! ## Both at once -/

/-- A look at the ring by anyone: first at the read cursor, then at the write cursor. -/
inductive Glance where
  | readSeen (read : UInt64)
  | over (len : Option Nat)
  deriving DecidableEq

/-- One access. -/
def Glance.step {α : Type} (r : Ring α) : Glance → Glance
  | .readSeen read => .over (some (min (r.write - read).toNat r.capacity.slots))
  | .over _ => .readSeen r.read

/-- A ring in use: where the parties stand, which items were published by pushes, and which were handed
over by pops. -/
structure Traffic (α : Type) where
  ring : Ring α
  producing : Producing α
  consuming : Consuming α
  glance : Glance
  accepted : List α
  taken : List α

namespace Traffic

variable {α : Type}

/-- Traffic that is about to begin. -/
def start (ring : Ring α) : Traffic α :=
  ⟨ring, .rest none, .rest none, .over none, [], []⟩

/-- What can happen next: a party at rest is called, or a party or an onlooker makes its next access. -/
inductive Move (α : Type) where
  | callProducer (call : Producer.Call α)
  | callConsumer (call : Consumer.Call α)
  | produce
  | consume
  | glance
  deriving DecidableEq

/-- One access of the producer. -/
def produce [Inhabited α] (t : Traffic α) : Traffic α :=
  let (ring, producing) := t.producing.step t.ring
  let accepted :=
    match t.producing with
    | .publish _ written => t.accepted ++ written
    | _ => t.accepted
  { t with ring := ring, producing := producing, accepted := accepted }

/-- One access of the consumer. -/
def consume (t : Traffic α) : Traffic α :=
  let (ring, consuming) := t.consuming.step t.ring
  let taken :=
    match t.consuming with
    | .publish _ got => t.taken ++ got
    | _ => t.taken
  { t with ring := ring, consuming := consuming, taken := taken }

def apply [Inhabited α] (t : Traffic α) : Move α → Traffic α
  | .callProducer call =>
    match t.producing with
    | .rest _ => { t with producing := .begin t.ring call }
    | _ => t
  | .callConsumer call =>
    match t.consuming with
    | .rest _ => { t with consuming := .begin t.ring call }
    | _ => t
  | .produce => t.produce
  | .consume => t.consume
  | .glance => { t with glance := t.glance.step t.ring }

/-- Moves made one after the other. -/
def applyAll [Inhabited α] (t : Traffic α) (moves : List (Move α)) : Traffic α :=
  moves.foldl apply t

end Traffic

end TimestampRelay
