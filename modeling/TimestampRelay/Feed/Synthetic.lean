/-
A deterministic stream of event descriptors that stands in for a device. The clock advances by 10
to 109 ticks an item, and now and then by one whole period of the field more, which the truncated
timestamps do not show.
-/
import TimestampRelay.Counter.Field
import TimestampRelay.Descriptor

namespace TimestampRelay

/-- The stream: the clock of the next item, its index, how many items there are in all, and the
interval of the hidden jumps. -/
structure SyntheticFeed where
  field : CounterField
  clock : UInt64
  index : UInt64
  count : UInt64
  jumpEvery : Option UInt64
  deriving DecidableEq

namespace SyntheticFeed

/-- The payload length of every item. -/
def payloadLen : UInt32 := 64

/-- A stream of `count` items from the clock `start`, with a hidden jump every hundred thousand items. -/
def ofStart (start count : UInt64) (field : CounterField) : SyntheticFeed where
  field := field
  clock := start
  index := 0
  count := count
  jumpEvery := some 100000

/-- Sets the interval of the hidden jumps. None, or an interval of zero, does away with them. -/
def withJumpEvery (f : SyntheticFeed) (every : Option UInt64) : SyntheticFeed :=
  { f with jumpEvery := every.filter (0 < ·) }

/-- Items still to come. -/
def remaining (f : SyntheticFeed) : UInt64 :=
  f.count - f.index

/-- Bounds on the number of items still to come. -/
def sizeHint (f : SyntheticFeed) : UInt64 × Option UInt64 :=
  (f.remaining, some f.remaining)

/-- Ticks from item `i` to the next one, without the jump. -/
def stride (i : UInt64) : UInt64 :=
  10 + i % 100

/-- Whether the clock jumps a period after item `i`. -/
def jumpsAfter (f : SyntheticFeed) (i : UInt64) : Bool :=
  match f.jumpEvery with
  | some every => i % every == 0
  | none => false

/-- The next item and the stream behind it. -/
def next (f : SyntheticFeed) : Option (Descriptor × SyntheticFeed) :=
  if f.index = f.count then none
  else
    let clock := f.clock + stride f.index
    some
      (⟨f.index, payloadLen, f.field.truncate f.clock⟩,
        { f with
          clock := if f.jumpsAfter f.index then clock + f.field.period else clock
          index := f.index + 1 })

/-- Up to `n` further items, put behind those already gathered. -/
def gather (f : SyntheticFeed) (gathered : Array Descriptor) : Nat → Array Descriptor × SyntheticFeed
  | 0 => (gathered, f)
  | n + 1 =>
    match f.next with
    | none => (gathered, f)
    | some (event, rest) => rest.gather (gathered.push event) n

/-- The next up to `n` items and the stream behind them. -/
def take (f : SyntheticFeed) (n : Nat) : Array Descriptor × SyntheticFeed :=
  f.gather #[] n

/-! ## Item by index -/

/-- Ticks from the first item of a stream to item `i`, without the jumps: whole rounds of a hundred
items, then the items of a broken round. -/
def strides (i : Nat) : Nat :=
  10 * i + 4950 * (i / 100) + (i % 100) * (i % 100 - 1) / 2

/-- Hidden jumps before item `i` of a stream. -/
def jumps (every : Option UInt64) (i : Nat) : Nat :=
  match every with
  | some every => (i + every.toNat - 1) / every.toNat
  | none => 0

/-- Item `i` of a stream that has yielded nothing yet. -/
def item? (f : SyntheticFeed) (i : Nat) : Option Descriptor :=
  if i < f.count.toNat then
    let clock := f.clock + UInt64.ofNat (strides i) + UInt64.ofNat (jumps f.jumpEvery i) * f.field.period
    some ⟨UInt64.ofNat i, payloadLen, f.field.truncate clock⟩
  else none

/-! ## As text -/

def text (f : SyntheticFeed) : String :=
  Text.Record.line
    { name := "SyntheticSource"
      fields :=
        [("field", f.field.text), ("clock", toString f.clock), ("index", toString f.index),
          ("count", toString f.count), ("forced_wrap_every", Text.optional toString f.jumpEvery)] }

end SyntheticFeed

end TimestampRelay
