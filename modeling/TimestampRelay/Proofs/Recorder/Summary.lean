/-
What a recorder says of the values that it took in. Its windows are the two ends of the stream, as long as they may be
and no longer, its count is the length of the stream, and its backward steps are the descents between neighbours.
-/
import TimestampRelay.Recorder
import Mathlib.Tactic

namespace TimestampRelay.Recorder

/-! ## A stream with one value more -/

theorem take_concat (keep : Nat) (values : List UInt64) (value : UInt64) :
    (values ++ [value]).take keep =
      if (values.take keep).length < keep then values.take keep ++ [value] else values.take keep := by
  rw [List.length_take]
  split
  · rename_i hlt
    have hle : values.length < keep := by omega
    rw [List.take_of_length_le hle.le, List.take_of_length_le]
    rw [List.length_append, List.length_singleton]
    exact hle
  · rename_i hlt
    exact List.take_append_of_le_length (by omega)

/-- The last values of a stream, as many as are kept. -/
def lastValues (keep : Nat) (values : List UInt64) : List UInt64 :=
  values.drop (values.length - keep)

theorem length_lastValues (keep : Nat) (values : List UInt64) :
    (lastValues keep values).length = min keep values.length := by
  rw [lastValues, List.length_drop]
  omega

/-- The window of last values is moved on by taking out its oldest value only if it is full. -/
theorem lastValues_concat (keep : Nat) (values : List UInt64) (value : UInt64) :
    lastValues keep (values ++ [value]) = slide keep (lastValues keep values) value := by
  have hlength := length_lastValues keep values
  have hdrop : lastValues keep (values ++ [value]) = (values ++ [value]).drop (values.length + 1 - keep) := by
    rw [lastValues, List.length_append, List.length_singleton]
  unfold slide
  split
  · rename_i hnone
    subst hnone
    rw [lastValues, lastValues, Nat.sub_zero, Nat.sub_zero, List.drop_length, List.drop_length]
  · split
    · -- The window is full: its oldest value makes room.
      rename_i hsome hfull
      rw [hdrop, lastValues, List.tail_drop, ← List.drop_append_of_le_length (by omega)]
      congr 1
      omega
    · rename_i hsome hroom
      have hall : values.length - keep = 0 := by omega
      have hmore : values.length + 1 - keep = 0 := by omega
      rw [hdrop, lastValues, hall, hmore, List.drop_zero, List.drop_zero]

/-- How many values of a stream are smaller than the one before them. -/
def descents (values : List UInt64) : Nat :=
  (values.zip values.tail).countP fun pair => pair.2 < pair.1

theorem descents_concat (values : List UInt64) (value : UInt64) :
    descents (values ++ [value]) = descents values + if stepsBack values.getLast? value then 1 else 0 := by
  induction values with
  | nil => rfl
  | cons a values ih =>
    cases values with
    | nil => simp [descents, stepsBack]
    | cons b values =>
      -- The pair in front is the same, and the last value is that of the rest.
      have hfront (rest : List UInt64) :
          descents (a :: b :: rest) = descents (b :: rest) + if b < a then 1 else 0 := by
        simp [descents, List.countP_cons]
      rw [List.cons_append, List.cons_append, hfront, hfront, ← List.cons_append, ih, List.getLast?_cons_cons,
        Nat.add_right_comm]

/-! ## The recorder -/

/-- A recorder that has taken in these values. -/
structure Records (keep : Nat) (values : List UInt64) (r : Recorder) : Prop where
  keep_eq : r.keep = keep
  first_eq : r.first = values.take keep
  last_eq : r.last = lastValues keep values
  count_eq : r.count = values.length
  previous_eq : r.previous = values.getLast?
  backwardSteps_eq : r.backwardSteps = descents values

theorem empty_records (keep : Nat) : Records keep [] (empty keep) :=
  ⟨rfl, List.take_nil.symm, List.drop_nil.symm, rfl, rfl, rfl⟩

theorem Records.deliver {keep : Nat} {values : List UInt64} {r : Recorder} (h : Records keep values r)
    (value : UInt64) : Records keep (values ++ [value]) (r.deliver value) where
  keep_eq := h.keep_eq
  first_eq := by
    rw [take_concat, ← h.first_eq, ← h.keep_eq]
    rfl
  last_eq := by
    rw [lastValues_concat, ← h.last_eq, ← h.keep_eq]
    rfl
  count_eq := by
    rw [List.length_append, List.length_singleton, ← h.count_eq]
    rfl
  previous_eq := List.getLast?_concat.symm
  backwardSteps_eq := by
    rw [descents_concat, ← h.previous_eq, ← h.backwardSteps_eq]
    rfl

theorem deliverAll_records (keep : Nat) (values : List UInt64) :
    Records keep values ((empty keep).deliverAll values) := by
  induction values using List.reverseRecOn with
  | nil => exact empty_records keep
  | append_singleton values value ih =>
    rw [deliverAll, List.foldl_append]
    exact ih.deliver value

/-- Behind any stream, whatever is kept, the windows of a recorder are the first values and the last values, in order,
and as many of them as are kept or as there are. The recorder has counted every value, and as backward steps just
those values that are smaller than their neighbour before. Nowhere on the way is a window longer than it may be. -/
theorem summary_of_stream (keep : Nat) (values : List UInt64) :
    let r := (empty keep).deliverAll values
    let kept := min keep values.length
    r.first = values.take kept ∧ r.last = values.drop (values.length - kept) ∧ r.count = values.length ∧
      r.backwardSteps = descents values ∧
      ∀ n, let sofar := (empty keep).deliverAll (values.take n)
        sofar.first.length ≤ keep ∧ sofar.last.length ≤ keep := by
  intro r kept
  have hr : Records keep values r := deliverAll_records keep values
  refine ⟨?_, ?_, hr.count_eq, hr.backwardSteps_eq, fun n => ?_⟩
  · rw [hr.first_eq, ← List.take_eq_take_min]
  · rw [hr.last_eq, lastValues]
    congr 1
    omega
  · have hsofar := deliverAll_records keep (values.take n)
    constructor
    · rw [hsofar.first_eq]
      exact List.length_take_le _ _
    · rw [hsofar.last_eq, length_lastValues]
      exact Nat.min_le_left _ _

/-- Two values are kept of five, of which two are smaller than their neighbour before. -/
example : (empty 2).deliverAll [7, 3, 3, 9, 4] = ⟨2, [7, 3], [9, 4], 5, some 4, 2⟩ := by decide

end TimestampRelay.Recorder
