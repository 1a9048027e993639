/-
A bounded queue: items in order, first in, first out, and never more than its capacity. It is what a
ring is to those who use it, without slots and cursors.
-/
import TimestampRelay.Ring.Call

namespace TimestampRelay

/-- A queue of at most `capacity` items, the oldest first. -/
structure Queue (α : Type) where
  capacity : Nat
  items : List α
  deriving DecidableEq

namespace Queue

variable {α : Type}

def free (q : Queue α) : Nat :=
  q.capacity - q.items.length

/-- Appends as many of the items as there is room for. -/
def append (q : Queue α) (items : List α) : Queue α :=
  { q with items := q.items ++ items.take q.free }

/-- Removes up to `count` items from the front. -/
def drop (q : Queue α) (count : Nat) : Queue α :=
  { q with items := q.items.drop count }

def produce (q : Queue α) : Producer.Call α → Producer.Answer × Queue α
  | .push item => (.accepted (0 < q.free), q.append [item])
  | .pushAll items => (.pushed (min items.length q.free), q.append items)
  | .freeSlots => (.free q.free, q)
  | .prefault => (.prefaulted, q)

def consume (q : Queue α) : Consumer.Call α → Consumer.Answer α × Queue α
  | .pop => (.item q.items.head?, q.drop 1)
  | .popInto slice =>
    let n := min slice.length q.items.length
    (.slice n (q.items.take n ++ slice.drop n), q.drop n)
  | .available => (.available q.items.length, q)
  | .exhausted => (.exhausted q.items.isEmpty, q)

def perform (q : Queue α) : Ring.Call α → Ring.Answer α × Queue α
  | .producer call => let (a, q) := q.produce call; (.producer a, q)
  | .consumer call => let (a, q) := q.consume call; (.consumer a, q)
  | .len => (.len q.items.length, q)
  | .isEmpty => (.isEmpty q.items.isEmpty, q)

/-- Calls made one after the other, and their answers. -/
def performAll (q : Queue α) : List (Ring.Call α) → List (Ring.Answer α) × Queue α
  | [] => ([], q)
  | call :: calls =>
    let (a, q) := q.perform call
    let (as, q) := q.performAll calls
    (a :: as, q)

end Queue

end TimestampRelay
