/-
Taking samples in four at a time gives what taking them in one by one gives: the same values and the
same state, for every field, every state and every samples. So calls of all kinds can be mixed, and
samples can be cut into calls anywhere.

Each lane's rollovers shift the era that the lane before it left, and shifts add up modulo 2^64.
-/
import TimestampRelay.Counter.Unwrapper

namespace TimestampRelay.Unwrapper

/-! ## One sample -/

@[simp] theorem field_advance (u : Unwrapper) (raw : UInt32) : (u.advance raw).field = u.field := rfl

@[simp] theorem last_advance (u : Unwrapper) (raw : UInt32) : (u.advance raw).last = u.reading raw := rfl

@[simp] theorem reading_advance (u : Unwrapper) (raw next : UInt32) :
    (u.advance raw).reading next = u.reading next := rfl

/-- A jump is not a rollover in both directions. -/
theorem backward_eq_false {half before now : UInt64} (h : forward half before now = true) :
    backward half before now = false := by
  simp only [forward, backward, Bool.and_eq_true, decide_eq_true_eq, Bool.and_eq_false_iff,
    decide_eq_false_iff_not] at h ⊢
  exact Or.inl (UInt64.lt_asymm h.1)

/-- One sample shifts the era by its rollovers. -/
theorem era_advance (u : Unwrapper) (raw : UInt32) :
    (u.advance raw).era = u.shifted (rollovers u.field.half u.last (u.reading raw)) := by
  unfold advance rollovers shifted
  cases hf : forward u.field.half u.last (u.reading raw) with
  | true => simp [hf, backward_eq_false hf]
  | false =>
    cases hb : backward u.field.half u.last (u.reading raw) with
    | true =>
      simp only [hf, hb, Bool.false_eq_true, if_false, if_true]
      show u.era - u.field.period = u.era + (-1) * u.field.period
      rw [← UInt64.neg_eq_neg_one_mul, UInt64.sub_eq_add_neg]
    | false => simp [hf, hb, UInt64.ofInt]

theorem shifted_zero (u : Unwrapper) : u.shifted 0 = u.era := by
  show u.era + 0 * u.field.period = u.era
  rw [UInt64.zero_mul, UInt64.add_zero]

/-- Shifts of the era add up. -/
theorem shifted_advance (u : Unwrapper) (raw : UInt32) (count : Int) :
    (u.advance raw).shifted count =
      u.shifted (rollovers u.field.half u.last (u.reading raw) + count) := by
  unfold shifted
  rw [era_advance, field_advance, shifted, UInt64.ofInt_add, UInt64.add_mul, UInt64.add_assoc]

/-! ## Many samples -/

theorem values_append (u : Unwrapper) (raws more : List UInt32) :
    u.values (raws ++ more) = u.values raws ++ (u.advanceAll raws).values more := by
  induction raws generalizing u with
  | nil => rfl
  | cons raw raws ih => simp only [List.cons_append, values, ih, advanceAll, List.foldl_cons]

theorem advanceAll_append (u : Unwrapper) (raws more : List UInt32) :
    u.advanceAll (raws ++ more) = (u.advanceAll raws).advanceAll more :=
  List.foldl_append

@[simp] theorem length_values (u : Unwrapper) (raws : List UInt32) :
    (u.values raws).length = raws.length := by
  induction raws generalizing u with
  | nil => rfl
  | cons raw raws ih => simp [values, ih]

/-- The values of the first samples are the first values. -/
theorem values_take (u : Unwrapper) (raws : List UInt32) (n : Nat) :
    u.values (raws.take n) = (u.values raws).take n := by
  induction raws generalizing u n with
  | nil => simp [values]
  | cons raw raws ih =>
    cases n with
    | zero => rfl
    | succ n => simp only [List.take_succ_cons, values, ih]

/-! ## Four samples -/

theorem lanes_eq (u : Unwrapper) (a b c d : UInt32) :
    u.lanes a b c d = (u.values [a, b, c, d], u.advanceAll [a, b, c, d]) := by
  have ha := era_advance u a
  have hb := era_advance (u.advance a) b
  have hc := era_advance ((u.advance a).advance b) c
  have hd := era_advance (((u.advance a).advance b).advance c) d
  simp only [shifted_advance, field_advance, last_advance, reading_advance] at hb hc hd
  have hstate : (u.lanes a b c d).2 = u.advanceAll [a, b, c, d] := by
    show Unwrapper.mk _ _ _ = (((u.advance a).advance b).advance c).advance d
    rw [mk.injEq]
    refine ⟨rfl, ?_, rfl⟩
    rw [hd, ← Int.add_assoc, ← Int.add_assoc]
  refine Prod.ext ?_ hstate
  show [_, _, _, _] = [_, _, _, _]
  simp only [current, ha, hb, hc, hd, last_advance, reading_advance, Int.add_assoc]

/-- Taking samples in four at a time is taking them in one by one. -/
theorem byLanes_eq (u : Unwrapper) (raws : List UInt32) :
    u.byLanes raws = (u.values raws, u.advanceAll raws) := by
  induction u, raws using byLanes.induct with
  | case1 u a b c d rest out v hl more w _ ih =>
    rw [lanes_eq] at hl
    obtain ⟨rfl, rfl⟩ := Prod.mk.inj hl
    have happ : a :: b :: c :: d :: rest = [a, b, c, d] ++ rest := rfl
    rw [happ, values_append, advanceAll_append]
    rw [List.cons_append, List.cons_append, List.cons_append, List.cons_append, List.nil_append, byLanes,
      lanes_eq]
    simp only [ih]
  | case2 u raws h =>
    unfold byLanes
    split
    · rename_i a b c d rest
      exact absurd rfl (h a b c d rest)
    · rfl

/-! ## Calls of all kinds -/

/-- What can be asked of a reconstruction: one sample, or as many as a source and a destination slice
both have room for. -/
inductive Call where
  | one (raw : UInt32)
  | extend (src : List UInt32) (dst : List UInt64)
  | extendByLanes (src : List UInt32) (dst : List UInt64)
  | extendDescriptors (src : List Descriptor) (dst : List UInt64)

namespace Call

/-- The samples on offer. -/
def src : Call → List UInt32
  | .one raw => [raw]
  | .extend src _ | .extendByLanes src _ => src
  | .extendDescriptors src _ => src.map Descriptor.truncatedTs

/-- The slice that is written to. The value of a single sample is taken for a slice of one. -/
def dst : Call → List UInt64
  | .one _ => [0]
  | .extend _ dst | .extendByLanes _ dst | .extendDescriptors _ dst => dst

/-- The samples that are taken in. -/
def consumed (call : Call) : List UInt32 :=
  call.src.take (min call.src.length call.dst.length)

theorem length_consumed (call : Call) :
    call.consumed.length = min call.src.length call.dst.length := by
  rw [consumed, List.length_take]
  omega

end Call

/-- Answers a call: how many samples were rebuilt, the slice written to, and the state afterwards. -/
def perform (u : Unwrapper) : Call → Nat × List UInt64 × Unwrapper
  | .one raw => (1, [(u.advance raw).current], u.advance raw)
  | .extend src dst => u.extend src dst
  | .extendByLanes src dst => u.extendByLanes src dst
  | .extendDescriptors src dst => u.extendDescriptors src dst

/-- Answers calls one after the other: all values they wrote, and the state afterwards. -/
def performAll (u : Unwrapper) : List Call → List UInt64 × Unwrapper
  | [] => ([], u)
  | call :: calls =>
    let (count, slice, v) := u.perform call
    let (more, w) := v.performAll calls
    (slice.take count ++ more, w)

theorem perform_eq (u : Unwrapper) (call : Call) :
    u.perform call = (min call.src.length call.dst.length, overwrite call.dst (u.values call.consumed),
      u.advanceAll call.consumed) := by
  cases call with
  | one raw => rfl
  | extend src dst => rfl
  | extendByLanes src dst =>
    simp only [perform, extendByLanes, byLanes_eq]
    rfl
  | extendDescriptors src dst =>
    simp only [perform, extendDescriptors, extendByLanes, byLanes_eq]
    rfl

theorem take_overwrite (dst out : List UInt64) : (overwrite dst out).take out.length = out :=
  List.take_left

theorem drop_overwrite (dst out : List UInt64) :
    (overwrite dst out).drop out.length = dst.drop out.length :=
  List.drop_left

theorem length_overwrite {dst out : List UInt64} (h : out.length ≤ dst.length) :
    (overwrite dst out).length = dst.length := by
  rw [overwrite, List.length_append, List.length_drop]
  omega

theorem performAll_eq (u : Unwrapper) (calls : List Call) :
    u.performAll calls =
      (u.values (calls.flatMap Call.consumed), u.advanceAll (calls.flatMap Call.consumed)) := by
  induction calls generalizing u with
  | nil => rfl
  | cons call calls ih =>
    have htake := take_overwrite call.dst (u.values call.consumed)
    rw [length_values, call.length_consumed] at htake
    simp only [performAll, perform_eq, ih, htake, List.flatMap_cons, values_append, advanceAll_append]

/-- However samples are cut into calls, and whichever calls are mixed: behind any calls, the next one
rebuilds as many samples as both its slices have room for, leaves the rest of its slice alone, and then
all values written and the state are those of taking the samples in one by one. -/
theorem calls_eq_one_by_one (field : CounterField) (seed : UInt64) (before : List Call) (call : Call) :
    let start := ofSeed field seed
    let samples := (before ++ [call]).flatMap Call.consumed
    let (written, u) := start.performAll before
    let (count, slice, v) := u.perform call
    count = min call.src.length call.dst.length ∧ call.consumed.length = count ∧
      slice.length = call.dst.length ∧ slice.drop count = call.dst.drop count ∧
      written ++ slice.take count = start.values samples ∧ v = start.advanceAll samples := by
  intro start samples
  have hsamples : samples = before.flatMap Call.consumed ++ call.consumed := by
    simp [samples]
  have hlen : ∀ u : Unwrapper, (u.values call.consumed).length = min call.src.length call.dst.length :=
    fun u => by rw [length_values, call.length_consumed]
  simp only [performAll_eq, perform_eq]
  refine ⟨trivial, call.length_consumed, ?_, ?_, ?_, ?_⟩
  · exact length_overwrite (by rw [hlen]; exact Nat.min_le_right _ _)
  · rw [← hlen, drop_overwrite]
  · rw [← hlen (start.advanceAll (before.flatMap Call.consumed)), take_overwrite, hsamples, values_append]
  · rw [hsamples, advanceAll_append]

end TimestampRelay.Unwrapper
