/-
The way back. Rollovers are counted forward and backward by the same measure, so a sample that was seen before takes a
reconstruction back over the jump that led away from it, however long that was. Samples fed once more in reverse, and
behind them the low bits of the seed, rebuild the values in reverse and leave the reconstruction as it was at first.
-/
import TimestampRelay.Proofs.Counter.Clock

namespace TimestampRelay.Unwrapper

variable {u : Unwrapper} {raw start : UInt32}

/-! ## One jump -/

/-- What is a rollover forward one way is a rollover backward the other way. -/
theorem rollovers_swap (half before now : UInt64) : rollovers half now before = -rollovers half before now :=
  (Int.neg_sub _ _).symm

theorem rollovers_self (half now : UInt64) : rollovers half now now = 0 := by
  have hswap := rollovers_swap half now now
  omega

theorem reading_eq_last_advance (u : Unwrapper) (raw : UInt32) : (u.advance raw).reading raw = (u.advance raw).last :=
  rfl

/-- The last sample once more changes nothing. -/
theorem advance_last (h : u.reading start = u.last) : u.advance start = u := by
  have hera : (u.advance start).era = u.era := by rw [era_advance, h, rollovers_self, shifted_zero]
  show Unwrapper.mk u.field (u.advance start).era (u.reading start) = u
  rw [hera, h]

/-- The sample before a jump takes the jump back. -/
theorem advance_back (h : u.reading start = u.last) (raw : UInt32) : (u.advance raw).advance start = u := by
  have hera : ((u.advance raw).advance start).era = u.era := by
    rw [era_advance, field_advance, last_advance, reading_advance, shifted_advance, h,
      rollovers_swap u.field.half u.last, Int.add_right_neg, shifted_zero]
  show Unwrapper.mk u.field ((u.advance raw).advance start).era (u.reading start) = u
  rw [hera, h]

/-! ## Whole paths -/

/-- The samples that lead back over some samples: those before the last in reverse, and then the one that stood in
front of them all. -/
def wayBack (start : UInt32) (raws : List UInt32) : List UInt32 :=
  raws.dropLast.reverse ++ [start]

theorem wayBack_cons_cons (start raw next : UInt32) (raws : List UInt32) :
    wayBack start (raw :: next :: raws) = wayBack raw (next :: raws) ++ [start] := by
  simp only [wayBack, List.dropLast_cons_cons, List.reverse_cons]

/-- The way back leads back. -/
theorem advanceAll_wayBack (h : u.reading start = u.last) (raws : List UInt32) :
    (u.advanceAll raws).advanceAll (wayBack start raws) = u := by
  induction raws generalizing u start with
  | nil => exact advance_last h
  | cons raw raws ih =>
    cases raws with
    | nil => exact advance_back h raw
    | cons next raws =>
      have hback := ih (reading_eq_last_advance u raw)
      rw [wayBack_cons_cons, advanceAll_append]
      show (((u.advance raw).advanceAll (next :: raws)).advanceAll (wayBack raw (next :: raws))).advance start = u
      rw [hback, advance_back h]

/-- On the way back the values are rebuilt in reverse, down to the one that stood in front of them all. -/
theorem values_wayBack (h : u.reading start = u.last) (raws : List UInt32) :
    (u.advanceAll raws).values (wayBack start raws) = (u.values raws).dropLast.reverse ++ [u.current] := by
  induction raws generalizing u start with
  | nil =>
    show [(u.advance start).current] = [u.current]
    rw [advance_last h]
  | cons raw raws ih =>
    cases raws with
    | nil =>
      show [((u.advance raw).advance start).current] = [u.current]
      rw [advance_back h]
    | cons next raws =>
      have hvalues := ih (reading_eq_last_advance u raw)
      have hback := advanceAll_wayBack (reading_eq_last_advance u raw) (next :: raws)
      have hrest : u.values (raw :: next :: raws) =
          (u.advance raw).current :: (u.advance raw).values (next :: raws) := rfl
      have hne : (u.advance raw).values (next :: raws) ≠ [] := by simp [values]
      rw [wayBack_cons_cons, values_append, hrest, List.dropLast_cons_of_ne_nil hne, List.reverse_cons]
      show ((u.advance raw).advanceAll (next :: raws)).values _ ++
        (((u.advance raw).advanceAll (next :: raws)).advanceAll _).values [start] = _
      rw [hvalues, hback]
      show _ ++ [((u.advance raw).advance start).current] = _
      rw [advance_back h]

/-- Samples taken in from a seed by calls of any kind, and then the same samples without the last in reverse and the
low bits of the seed, again by calls of any kind: the second calls write the values of the first in reverse, without
the last and down to the seed, and leave the reconstruction as it was at first. -/
theorem path_retraced (field : CounterField) (seed : UInt64) (there back : List Call)
    (hback : back.flatMap Call.consumed = wayBack (field.truncate seed) (there.flatMap Call.consumed)) :
    let (values, u) := (ofSeed field seed).performAll there
    u.performAll back = (values.dropLast.reverse ++ [seed], ofSeed field seed) := by
  have hlast : (ofSeed field seed).reading (field.truncate seed) = (ofSeed field seed).last :=
    reading_truncate (ofSeed field seed) seed
  have hvalues := values_wayBack hlast (there.flatMap Call.consumed)
  have hstate := advanceAll_wayBack hlast (there.flatMap Call.consumed)
  rw [current_ofSeed] at hvalues
  simp only [performAll_eq, hback, hvalues, hstate]

/-- A field of eight bits, from just below 2^64. The path goes forward over 2^64, on by half a period exactly, over the
end of the field and back again. Four lanes and one sample take it in, and calls of all kinds retrace it below zero. -/
theorem path_over_zero_retraced :
    let field : CounterField := ⟨8, by decide, by decide⟩
    let start := ofSeed field 0xfffffffffffffff0
    let there : List Call := [.extendByLanes [16, 144, 250, 3] [0, 0, 0, 0], .one 200]
    let back : List Call :=
      [.one 3, .extend [250, 144] [0, 0, 7], .extendDescriptors [⟨9, 9, 16⟩, ⟨9, 9, 240⟩] [0, 0]]
    let (values, u) := start.performAll there
    values = [0x10, 0x90, 0xfa, 0x103, 0xc8] ∧
      u.performAll back = ([0x103, 0xfa, 0x90, 0x10, 0xfffffffffffffff0], start) := by
  intro field start there back
  have hback : back.flatMap Call.consumed =
      wayBack (field.truncate 0xfffffffffffffff0) (there.flatMap Call.consumed) := by decide
  have hvalues : (start.performAll there).1 = [0x10, 0x90, 0xfa, 0x103, 0xc8] := by decide
  have hretraced := path_retraced field 0xfffffffffffffff0 there back hback
  refine ⟨hvalues, hretraced.trans ?_⟩
  show ((start.performAll there).1.dropLast.reverse ++ [_], start) = _
  rw [hvalues]
  rfl

end TimestampRelay.Unwrapper
