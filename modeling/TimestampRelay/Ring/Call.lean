/-
The operations of a ring as values: what each party can be asked to do, what it answers, and what
anyone who holds the ring can ask. A history of a ring is a list of calls.
-/
import TimestampRelay.Ring.Basic

namespace TimestampRelay

namespace Producer

/-- What the producer can be asked to do. -/
inductive Call (α : Type) where
  | push (item : α)
  | pushAll (items : List α)
  | freeSlots
  | prefault
  deriving DecidableEq

inductive Answer where
  /-- Whether the item was pushed. -/
  | accepted (ok : Bool)
  /-- How many items were pushed. -/
  | pushed (count : Nat)
  | free (count : Nat)
  | prefaulted
  deriving DecidableEq

end Producer

namespace Consumer

/-- What the consumer can be asked to do. -/
inductive Call (α : Type) where
  | pop
  | popInto (slice : List α)
  | available
  | exhausted
  deriving DecidableEq

inductive Answer (α : Type) where
  | item (popped : Option α)
  /-- How many items were popped, and the slice with the items at its front. -/
  | slice (count : Nat) (slice : List α)
  | available (count : Nat)
  | exhausted (empty : Bool)
  deriving DecidableEq

end Consumer

namespace Ring

variable {α : Type}

/-- What can be asked of a ring: of its producer, of its consumer, or of the ring itself. -/
inductive Call (α : Type) where
  | producer (call : Producer.Call α)
  | consumer (call : Consumer.Call α)
  | len
  | isEmpty
  deriving DecidableEq

inductive Answer (α : Type) where
  | producer (answer : Producer.Answer)
  | consumer (answer : Consumer.Answer α)
  | len (count : Nat)
  | isEmpty (empty : Bool)
  deriving DecidableEq

/-- The producer does what it is asked to. -/
def produce [Inhabited α] (r : Ring α) : Producer.Call α → Producer.Answer × Ring α
  | .push item => let (ok, r) := r.push item; (.accepted ok, r)
  | .pushAll items => let (n, r) := r.pushAll items; (.pushed n, r)
  | .freeSlots => let (n, r) := r.freeSlots; (.free n, r)
  | .prefault => (.prefaulted, r.prefault)

/-- The consumer does what it is asked to. -/
def consume (r : Ring α) : Consumer.Call α → Consumer.Answer α × Ring α
  | .pop => let (x, r) := r.pop; (.item x, r)
  | .popInto slice => let (n, slice, r) := r.popInto slice; (.slice n slice, r)
  | .available => let (n, r) := r.available; (.available n, r)
  | .exhausted => let (b, r) := r.exhausted; (.exhausted b, r)

/-- One call, made while nothing else happens. -/
def perform [Inhabited α] (r : Ring α) : Call α → Answer α × Ring α
  | .producer call => let (a, r) := r.produce call; (.producer a, r)
  | .consumer call => let (a, r) := r.consume call; (.consumer a, r)
  | .len => (.len r.len, r)
  | .isEmpty => (.isEmpty r.isEmpty, r)

/-- Calls made one after the other, and their answers. -/
def performAll [Inhabited α] (r : Ring α) : List (Call α) → List (Answer α) × Ring α
  | [] => ([], r)
  | call :: calls =>
    let (a, r) := r.perform call
    let (as, r) := r.performAll calls
    (a :: as, r)

end Ring

end TimestampRelay
