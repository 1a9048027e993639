/-
Rebuilding full-width timestamps from the samples of a counter field. A jump of more than half a
period between two samples is taken for a rollover in the other direction; half a period exactly is
taken as it is.
-/
import TimestampRelay.Counter.Field
import TimestampRelay.Descriptor

namespace TimestampRelay

/-- The state of a reconstruction: the upper bits in force, and the last sample. -/
structure Unwrapper where
  field : CounterField
  era : UInt64
  last : UInt64
  deriving DecidableEq

namespace Unwrapper

/-- A reconstruction that starts from a full-width value. -/
def ofSeed (field : CounterField) (seed : UInt64) : Unwrapper where
  field := field
  era := seed &&& ~~~field.mask
  last := seed &&& field.mask

/-- The value rebuilt last; at first the seed. -/
def current (u : Unwrapper) : UInt64 :=
  u.era ||| u.last

/-- The sample as the field holds it: bits above the field are ignored. -/
def reading (u : Unwrapper) (raw : UInt32) : UInt64 :=
  raw.toUInt64 &&& u.field.mask

/-- The field went past its end on the way from `before` to `now`. -/
def forward (half before now : UInt64) : Bool :=
  now < before && half < before - now

/-- The field went back past its start on the way from `before` to `now`. -/
def backward (half before now : UInt64) : Bool :=
  before < now && half < now - before

/-- Takes in one sample. -/
def advance (u : Unwrapper) (raw : UInt32) : Unwrapper :=
  let now := u.reading raw
  let era :=
    if forward u.field.half u.last now then u.era + u.field.period
    else if backward u.field.half u.last now then u.era - u.field.period
    else u.era
  { u with era := era, last := now }

/-- Takes in samples one by one. -/
def advanceAll (u : Unwrapper) (raws : List UInt32) : Unwrapper :=
  raws.foldl advance u

/-- The values rebuilt from samples taken in one by one. -/
def values : Unwrapper → List UInt32 → List UInt64
  | _, [] => []
  | u, raw :: raws => (u.advance raw).current :: values (u.advance raw) raws

/-! ## Four samples at a time -/

/-- The rollovers between two samples: one forward, one backward or none. -/
def rollovers (half before now : UInt64) : Int :=
  (if forward half before now then 1 else 0) - (if backward half before now then 1 else 0)

/-- The era that lies a number of rollovers away. -/
def shifted (u : Unwrapper) (count : Int) : UInt64 :=
  u.era + UInt64.ofInt count * u.field.period

/-- Four samples taken in together. Each lane counts its rollovers from its own sample and the one
before it; the running sums of these counts give the eras. -/
def lanes (u : Unwrapper) (a b c d : UInt32) : List UInt64 × Unwrapper :=
  let (ta, tb, tc, td) := (u.reading a, u.reading b, u.reading c, u.reading d)
  let half := u.field.half
  let na := rollovers half u.last ta
  let nb := na + rollovers half ta tb
  let nc := nb + rollovers half tb tc
  let nd := nc + rollovers half tc td
  ([u.shifted na ||| ta, u.shifted nb ||| tb, u.shifted nc ||| tc, u.shifted nd ||| td],
    { u with era := u.shifted nd, last := td })

/-- Samples taken in four at a time; up to three that remain are taken in one by one. -/
def byLanes (u : Unwrapper) : List UInt32 → List UInt64 × Unwrapper
  | a :: b :: c :: d :: rest =>
    let (out, v) := u.lanes a b c d
    let (more, w) := v.byLanes rest
    (out ++ more, w)
  | raws => (u.values raws, u.advanceAll raws)

/-! ## Into a slice -/

/-- Overwrites the front of a slice. -/
def overwrite (dst out : List UInt64) : List UInt64 :=
  out ++ dst.drop out.length

/-- Rebuilds as many samples as both slices have room for, one by one: how many, the slice written
to, and the state afterwards. -/
def extend (u : Unwrapper) (src : List UInt32) (dst : List UInt64) :
    Nat × List UInt64 × Unwrapper :=
  let n := min src.length dst.length
  (n, overwrite dst (u.values (src.take n)), u.advanceAll (src.take n))

/-- The same four at a time. -/
def extendByLanes (u : Unwrapper) (src : List UInt32) (dst : List UInt64) :
    Nat × List UInt64 × Unwrapper :=
  let n := min src.length dst.length
  let (out, v) := u.byLanes (src.take n)
  (n, overwrite dst out, v)

/-- The same from the timestamps of descriptors. -/
def extendDescriptors (u : Unwrapper) (src : List Descriptor) (dst : List UInt64) :
    Nat × List UInt64 × Unwrapper :=
  u.extendByLanes (src.map Descriptor.truncatedTs) dst

/-! ## As text -/

def record (u : Unwrapper) : Text.Record where
  name := "TimestampExtender"
  fields :=
    [("width", toString u.field.width), ("era", Text.hex u.era.toNat), ("prev", Text.hex u.last.toNat)]

end Unwrapper

end TimestampRelay
