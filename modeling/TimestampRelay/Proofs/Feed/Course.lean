/-
The course of a synthetic stream whose interval of hidden jumps is changed on the way, at any time and as often as one
likes. Its items are known by their index: the clock of an item is the first clock, the strides before the item, and a
period for every earlier item whose index was a multiple of the interval in force when it came. On the way no operation
on words goes wrong that is meant not to wrap.
-/
import TimestampRelay.Proofs.Feed.Lag
import TimestampRelay.Proofs.Word

namespace TimestampRelay

namespace SyntheticFeed

/-! ## Operations checked -/

/-- The next item with every operation checked that is not meant to wrap. -/
def next? (f : SyntheticFeed) : Option (Option (Descriptor × SyntheticFeed)) :=
  if f.index = f.count then some none
  else do
    let stride ← Word.add? 10 (← Word.mod? f.index 100)
    let past ← match f.jumpEvery with
      | some every => Word.mod? f.index every
      | none => some 1
    let index ← Word.add? f.index 1
    let clock := f.clock + stride
    return some
      (⟨f.index, payloadLen, f.field.truncate f.clock⟩,
        { f with clock := if past = 0 then clock + f.field.period else clock, index := index })

/-- The number of items to come, its subtraction checked. -/
def remaining? (f : SyntheticFeed) : Option UInt64 :=
  Word.sub? f.count f.index

/-- A stream that is not past its end, and whose interval is no interval of zero. -/
structure Orderly (f : SyntheticFeed) : Prop where
  index_le : f.index ≤ f.count
  jumpEvery_ne : f.jumpEvery ≠ some 0

theorem toNat_stride (i : UInt64) : (stride i).toNat = 10 + i.toNat % 100 := by
  have := Nat.mod_lt i.toNat (show 0 < 100 by decide)
  rw [stride, UInt64.toNat_add, UInt64.toNat_mod]
  show (10 + i.toNat % 100) % 2 ^ 64 = _
  omega

/-- An orderly stream does nothing that goes wrong. -/
theorem Orderly.next?_eq {f : SyntheticFeed} (h : f.Orderly) : f.next? = some f.next := by
  unfold next? next
  split
  · rfl
  · rename_i hmore
    have hindex : f.index.toNat < f.count.toNat :=
      UInt64.lt_iff_toNat_lt.1 (UInt64.lt_of_le_of_ne h.index_le hmore)
    have hcount := f.count.toNat_lt
    have hsize : UInt64.size = 18446744073709551616 := rfl
    have hmod : Word.mod? f.index 100 = some (f.index % 100) := rfl
    have hstride : Word.add? 10 (f.index % 100) = some (stride f.index) := by
      have := toNat_stride f.index
      refine if_pos ?_
      rw [UInt64.toNat_mod]
      show 10 + f.index.toNat % 100 < _
      omega
    have hnext : Word.add? f.index 1 = some (f.index + 1) := by
      refine if_pos ?_
      show f.index.toNat + 1 < _
      omega
    cases hevery : f.jumpEvery with
    | none => simp [hmod, hstride, hnext, jumpsAfter, hevery]
    | some every =>
      have hne : every ≠ 0 := fun hzero => h.jumpEvery_ne (hzero ▸ hevery)
      have hpast : Word.mod? f.index every = some (f.index % every) := if_neg hne
      simp [hmod, hstride, hnext, hpast, jumpsAfter, hevery]

theorem Orderly.remaining?_eq {f : SyntheticFeed} (h : f.Orderly) : f.remaining? = some f.remaining :=
  if_pos h.index_le

/-! ## Calls -/

/-- What a stream can be asked for: its next item, or another interval from here on. -/
inductive Call where
  | next
  | jumpEvery (every : Option UInt64)
  deriving DecidableEq

/-- Answers a call: the answer, if an item was asked for, and the stream behind the call. -/
def perform (f : SyntheticFeed) : Call → List (Option Descriptor) × SyntheticFeed
  | .next =>
    match f.next with
    | some (event, rest) => ([some event], rest)
    | none => ([none], f)
  | .jumpEvery every => ([], f.withJumpEvery every)

/-- Answers calls one after the other. -/
def performAll (f : SyntheticFeed) : List Call → List (Option Descriptor) × SyntheticFeed
  | [] => ([], f)
  | call :: calls =>
    let (answer, g) := f.perform call
    let (answers, h) := g.performAll calls
    (answer ++ answers, h)

theorem performAll_concat (f : SyntheticFeed) (calls : List Call) (call : Call) :
    f.performAll (calls ++ [call]) =
      ((f.performAll calls).1 ++ ((f.performAll calls).2.perform call).1,
        ((f.performAll calls).2.perform call).2) := by
  induction calls generalizing f with
  | nil => simp [performAll]
  | cons first calls ih => simp only [List.cons_append, performAll, ih, List.append_assoc]

/-- How many times an item is asked for. -/
def asked (calls : List Call) : Nat :=
  calls.count .next

theorem asked_next (calls : List Call) : asked (calls ++ [.next]) = asked calls + 1 := by
  rw [asked, List.count_append]
  rfl

theorem asked_jumpEvery (calls : List Call) (every : Option UInt64) :
    asked (calls ++ [.jumpEvery every]) = asked calls := by
  rw [asked, List.count_append]
  rfl

/-- The interval in force behind these calls. -/
def intervalAfter (every : Option UInt64) (calls : List Call) : Option UInt64 :=
  calls.foldl (fun every call =>
    match call with
    | .next => every
    | .jumpEvery every => every) every

/-- The intervals in force at the calls for an item, in order. -/
def intervals (every : Option UInt64) : List Call → List (Option UInt64)
  | [] => []
  | .next :: calls => every :: intervals every calls
  | .jumpEvery every :: calls => intervals every calls

theorem length_intervals (every : Option UInt64) (calls : List Call) :
    (intervals every calls).length = asked calls := by
  induction calls generalizing every with
  | nil => rfl
  | cons call calls ih =>
    cases call with
    | next => rw [intervals, List.length_cons, ih, asked, asked, List.count_cons_self]
    | jumpEvery every => exact ih every

theorem intervals_concat (every : Option UInt64) (calls : List Call) (call : Call) :
    intervals every (calls ++ [call]) =
      intervals every calls ++ if call = .next then [intervalAfter every calls] else [] := by
  induction calls generalizing every with
  | nil => cases call <;> rfl
  | cons first calls ih =>
    cases first with
    | next => exact congrArg (every :: ·) (ih every)
    | jumpEvery every => exact ih every

theorem intervalAfter_concat (every : Option UInt64) (calls : List Call) (call : Call) :
    intervalAfter every (calls ++ [call]) =
      match call with
      | .next => intervalAfter every calls
      | .jumpEvery every => every := by
  rw [intervalAfter, List.foldl_append]
  rfl

/-! ## Clock and items by index -/

/-- Whether the clock jumps behind item `i` while this interval is in force. An interval of zero is none. -/
def jumpDue (every : Option UInt64) (i : Nat) : Bool :=
  match every with
  | some every => decide (every ≠ 0 ∧ every.toNat ∣ i)
  | none => false

/-- Jumps before item `i` of a stream whose items came under these intervals. -/
def jumpsUnder (intervals : List (Option UInt64)) (i : Nat) : Nat :=
  Nat.count (fun j => jumpDue (intervals.getD j none) j) i

/-- The clock of item `i` of such a stream. -/
def clockAt (start : UInt64) (field : CounterField) (intervals : List (Option UInt64)) (i : Nat) : UInt64 :=
  start + .ofNat (ticksBefore i) + .ofNat (jumpsUnder intervals i) * field.period

/-- What a call for item `i` is answered. -/
def answerAt (start count : UInt64) (field : CounterField) (intervals : List (Option UInt64)) (i : Nat) :
    Option Descriptor :=
  if i < count.toNat then some ⟨.ofNat i, payloadLen, field.truncate (clockAt start field intervals i)⟩ else none

/-- Later intervals do not matter. -/
theorem jumpsUnder_append (before after : List (Option UInt64)) {i : Nat} (hi : i ≤ before.length) :
    jumpsUnder (before ++ after) i = jumpsUnder before i := by
  induction i with
  | zero => simp [jumpsUnder]
  | succ i ih =>
    have hget : (before ++ after).getD i none = before.getD i none := by
      rw [List.getD_eq_getElem?_getD, List.getElem?_append_left (by omega), List.getD_eq_getElem?_getD]
    simp only [jumpsUnder] at ih
    simp only [jumpsUnder, Nat.count_succ, ih (by omega), hget]

theorem clockAt_append (start : UInt64) (field : CounterField) (before after : List (Option UInt64)) {i : Nat}
    (hi : i ≤ before.length) : clockAt start field (before ++ after) i = clockAt start field before i := by
  rw [clockAt, clockAt, jumpsUnder_append before after hi]

/-- The clock goes on by a stride, and by a period if a jump is due. -/
theorem clockAt_concat (start : UInt64) (field : CounterField) (before : List (Option UInt64))
    (every : Option UInt64) :
    let clock := clockAt start field before before.length + .ofNat (10 + before.length % 100)
    clockAt start field (before ++ [every]) (before.length + 1) =
      if jumpDue every before.length then clock + field.period else clock := by
  intro clock
  have hlast : (before ++ [every]).getD before.length none = every := by simp
  have hjumps : jumpsUnder (before ++ [every]) (before.length + 1) =
      jumpsUnder before before.length + if jumpDue every before.length then 1 else 0 := by
    have hbefore := jumpsUnder_append before [every] le_rfl
    simp only [jumpsUnder] at hbefore
    simp only [jumpsUnder, Nat.count_succ, hbefore, hlast]
  simp only [clock, clockAt, ticksBefore_succ, hjumps, UInt64.ofNat_add]
  generalize UInt64.ofNat (ticksBefore before.length) = ticks
  generalize UInt64.ofNat (jumpsUnder before before.length) = jumps
  generalize UInt64.ofNat 10 + UInt64.ofNat (before.length % 100) = stride
  split
  · show start + (ticks + stride) + (jumps + 1) * field.period = _
    grind
  · show start + (ticks + stride) + (jumps + 0) * field.period = _
    grind

theorem jumpsUnder_replicate (every : Option UInt64) {i n : Nat} (hi : i ≤ n) :
    jumpsUnder (List.replicate n every) i = jumpsBefore every i := by
  induction i with
  | zero => cases every <;> simp [jumpsUnder, jumpsBefore]
  | succ i ih =>
    have hget : (List.replicate n every).getD i none = every := by
      rw [List.getD_eq_getElem?_getD, List.getElem?_replicate_of_lt (by omega)]
      rfl
    have hbefore := ih (by omega)
    unfold jumpsUnder at hbefore ⊢
    rw [Nat.count_succ, hbefore, hget]
    cases every with
    | none => rfl
    | some every =>
      by_cases hzero : every = 0
      · simp [jumpsBefore, jumpDue, hzero]
      · simp [jumpsBefore, jumpDue, hzero, Nat.count_succ]

/-- Calls that all come under one interval are answered with the items by index. -/
theorem answerAt_replicate (start count : UInt64) (field : CounterField) (every : Option UInt64) {i n : Nat}
    (hi : i ≤ n) : answerAt start count field (List.replicate n every) i =
      ((ofStart start count field).withJumpEvery every).item? i := by
  rw [item?_eq_itemAt, answerAt, clockAt, jumpsUnder_replicate every hi]
  rfl

/-! ## Where calls lead -/

variable {start count : UInt64} {field : CounterField} {calls : List Call} {f : SyntheticFeed}

/-- A stream where these calls have brought it. -/
structure StandsAt (start count : UInt64) (field : CounterField) (calls : List Call) (f : SyntheticFeed) : Prop where
  field_eq : f.field = field
  count_eq : f.count = count
  index_eq : f.index = .ofNat (min (asked calls) count.toNat)
  clock_eq : f.clock = clockAt start field (intervals (some 100000) calls) (min (asked calls) count.toNat)
  jumpEvery_eq : f.jumpEvery = (intervalAfter (some 100000) calls).filter (0 < ·)

theorem StandsAt.toNat_index (h : StandsAt start count field calls f) :
    f.index.toNat = min (asked calls) count.toNat := by
  have := count.toNat_lt
  rw [h.index_eq, UInt64.toNat_ofNat']
  omega

theorem StandsAt.orderly (h : StandsAt start count field calls f) : f.Orderly where
  index_le := by
    rw [UInt64.le_iff_toNat_le, h.toNat_index, h.count_eq]
    exact Nat.min_le_right _ _
  jumpEvery_ne := by
    rw [h.jumpEvery_eq]
    intro hzero
    exact absurd (Option.filter_eq_some_iff.1 hzero).2 (by decide)

/-- The clock jumps behind an item exactly if that is due. -/
theorem StandsAt.jumpsAfter_index (h : StandsAt start count field calls f) :
    f.jumpsAfter f.index = jumpDue (intervalAfter (some 100000) calls) f.index.toNat := by
  unfold jumpsAfter
  rw [h.jumpEvery_eq]
  cases intervalAfter (some 100000) calls with
  | none => rfl
  | some every =>
    by_cases hzero : every = 0
    · subst hzero
      have hnone : (some (0 : UInt64)).filter (0 < ·) = none := rfl
      rw [hnone]
      simp [jumpDue]
    · have hdvd : f.index % every = 0 ↔ every.toNat ∣ f.index.toNat := by
        rw [← UInt64.toNat_inj, UInt64.toNat_mod]
        exact Nat.dvd_iff_mod_eq_zero.symm
      rw [filter_interval hzero]
      simp only [jumpDue, ← hdvd, ne_eq, hzero, not_false_eq_true, true_and]
      rfl

theorem StandsAt.jumpEvery (h : StandsAt start count field calls f) (every : Option UInt64) :
    StandsAt start count field (calls ++ [.jumpEvery every]) (f.withJumpEvery every) := by
  have hcount := asked_jumpEvery calls every
  have hintervals : intervals (some 100000) (calls ++ [.jumpEvery every]) = intervals (some 100000) calls := by
    rw [intervals_concat]
    exact List.append_nil _
  refine ⟨h.field_eq, h.count_eq, ?_, ?_, ?_⟩
  · rw [hcount]
    exact h.index_eq
  · rw [hcount, hintervals]
    exact h.clock_eq
  · rw [intervalAfter_concat]
    rfl

/-- A call for an item that there is. -/
theorem StandsAt.next_of_lt (h : StandsAt start count field calls f) (hlt : asked calls < count.toNat) :
    ∃ g, f.next = some (⟨f.index, payloadLen, field.truncate f.clock⟩, g) ∧
      StandsAt start count field (calls ++ [.next]) g := by
  obtain rfl := h.field_eq
  have hindex : f.index.toNat = asked calls := by
    rw [h.toNat_index]
    omega
  have hne : f.index ≠ f.count := by
    rw [h.count_eq]
    intro heq
    rw [heq] at hindex
    omega
  have hcount := asked_next calls
  have hmin : min (asked calls + 1) count.toNat = asked calls + 1 := by omega
  have hlength := length_intervals (some 100000) calls
  have hclock : f.clock = clockAt start f.field (intervals (some 100000) calls) (asked calls) := by
    rw [h.clock_eq]
    congr 1
    omega
  have hstride : stride f.index = .ofNat (10 + asked calls % 100) := by
    rw [← hindex, ← toNat_stride, UInt64.ofNat_toNat]
  have hgo := clockAt_concat start f.field (intervals (some 100000) calls) (intervalAfter (some 100000) calls)
  rw [hlength, ← hclock, ← hstride, ← hindex, ← h.jumpsAfter_index, hindex] at hgo
  refine ⟨_, if_neg hne, rfl, h.count_eq, ?_, ?_, ?_⟩
  · rw [hcount, hmin, UInt64.ofNat_add, ← hindex, UInt64.ofNat_toNat]
    rfl
  · rw [hcount, hmin, intervals_concat, if_pos rfl]
    exact hgo.symm
  · rw [intervalAfter_concat]
    exact h.jumpEvery_eq

/-- A call for an item when there is none left. -/
theorem StandsAt.next_of_le (h : StandsAt start count field calls f) (hle : count.toNat ≤ asked calls) :
    f.next = none ∧ StandsAt start count field (calls ++ [.next]) f := by
  have hmin : min (asked calls) count.toNat = count.toNat := by omega
  have hcount := asked_next calls
  have hmin' : min (asked calls + 1) count.toNat = count.toNat := by omega
  have hlength := length_intervals (some 100000) calls
  have hindex : f.index = f.count := by
    rw [h.index_eq, hmin, UInt64.ofNat_toNat, h.count_eq]
  refine ⟨if_pos hindex, h.field_eq, h.count_eq, ?_, ?_, ?_⟩
  · rw [hcount, hmin', ← hmin]
    exact h.index_eq
  · rw [hcount, hmin', intervals_concat, if_pos rfl, clockAt_append _ _ _ _ (by omega), ← hmin]
    exact h.clock_eq
  · rw [intervalAfter_concat]
    exact h.jumpEvery_eq

theorem ofStart_standsAt (start count : UInt64) (field : CounterField) :
    StandsAt start count field [] (ofStart start count field) := by
  have hmin : min (asked []) count.toNat = 0 := Nat.zero_min _
  refine ⟨rfl, rfl, ?_, ?_, rfl⟩ <;> rw [hmin]
  · rfl
  · simp [ofStart, clockAt, ticksBefore, jumpsUnder]

/-- What calls are answered, and where they lead. -/
theorem performAll_spec (start count : UInt64) (field : CounterField) (calls : List Call) :
    ((ofStart start count field).performAll calls).1 =
        (List.range (asked calls)).map (answerAt start count field (intervals (some 100000) calls)) ∧
      StandsAt start count field calls ((ofStart start count field).performAll calls).2 := by
  induction calls using List.reverseRecOn with
  | nil => exact ⟨rfl, ofStart_standsAt start count field⟩
  | append_singleton calls call ih =>
    obtain ⟨hanswers, hstands⟩ := ih
    have hlength := length_intervals (some 100000) calls
    rw [performAll_concat]
    generalize ((ofStart start count field).performAll calls).2 = f at hstands ⊢
    cases call with
    | jumpEvery every =>
      refine ⟨?_, hstands.jumpEvery every⟩
      have hcount := asked_jumpEvery calls every
      rw [hcount, intervals_concat, hanswers]
      simp [perform]
    | next =>
      have hcount := asked_next calls
      -- The answers so far do not depend on the interval that is in force now.
      have hearlier : (List.range (asked calls)).map
          (answerAt start count field (intervals (some 100000) (calls ++ [.next]))) =
            (List.range (asked calls)).map (answerAt start count field (intervals (some 100000) calls)) := by
        refine List.map_congr_left fun i hi => ?_
        have hi := List.mem_range.1 hi
        rw [answerAt, answerAt, intervals_concat, clockAt_append _ _ _ _ (by omega)]
      have hlast : answerAt start count field (intervals (some 100000) (calls ++ [.next])) (asked calls) =
          if asked calls < count.toNat then
            some ⟨f.index, payloadLen, field.truncate f.clock⟩ else none := by
        unfold answerAt
        split
        · rename_i hlt
          have hmin : min (asked calls) count.toNat = asked calls := by omega
          rw [hstands.index_eq, hstands.clock_eq, hmin, intervals_concat, clockAt_append _ _ _ _ (by omega)]
        · rfl
      rw [hcount, List.range_succ, List.map_append, hearlier, ← hanswers, List.map_singleton, hlast]
      rcases Nat.lt_or_ge (asked calls) count.toNat with hlt | hle
      · obtain ⟨g, hnext, hg⟩ := hstands.next_of_lt hlt
        simp only [perform, hnext, if_pos hlt]
        exact ⟨trivial, hg⟩
      · obtain ⟨hnext, hf⟩ := hstands.next_of_le hle
        simp only [perform, hnext, if_neg (Nat.not_lt.2 hle)]
        exact ⟨trivial, hf⟩

/-- A stream of any length, from any clock, that is called for items and given other intervals in any order. The first
calls for an item bring the items in order, as many as there are, and all others bring none. Behind any calls, the
clock is that of the next item, the number of items to come is what the items so far leave of the whole, both bounds
on it are that number, and neither it nor the next item takes an operation that goes wrong. -/
theorem course_of_stream (start count : UInt64) (field : CounterField) (calls : List Call) :
    let answers := ((ofStart start count field).performAll calls).1
    let feed := ((ofStart start count field).performAll calls).2
    let made := asked calls
    let clock := fun i => start + .ofNat (∑ j ∈ Finset.range i, (10 + j % 100)) +
      .ofNat (jumpsUnder (intervals (some 100000) calls) i) * field.period
    answers = (List.range made).map (fun i =>
        if i < count.toNat then some ⟨.ofNat i, 64, field.truncate (clock i)⟩ else none) ∧
      feed.clock = clock (min made count.toNat) ∧
      feed.remaining.toNat = count.toNat - min made count.toNat ∧
      feed.sizeHint = (feed.remaining, some feed.remaining) ∧
      feed.remaining? = some feed.remaining ∧ feed.next? = some feed.next := by
  intro answers feed made clock
  obtain ⟨hanswers, hstands⟩ := performAll_spec start count field calls
  have hstands : StandsAt start count field calls feed := hstands
  refine ⟨hanswers, hstands.clock_eq, ?_, rfl, hstands.orderly.remaining?_eq, hstands.orderly.next?_eq⟩
  have hle := hstands.orderly.index_le
  rw [remaining, UInt64.toNat_sub_of_le _ _ hle, hstands.toNat_index, hstands.count_eq]

/-- Of three items the first comes under the interval that streams begin with, the second under none, and the third
under an interval of two: two jumps. -/
example :
    let calls : List Call := [.next, .jumpEvery none, .next, .jumpEvery (some 2), .next, .next]
    ((ofStart 0 3 .standard).performAll calls).2.clock = 10 + 11 + 12 + 2 * CounterField.standard.period := by
  decide

end SyntheticFeed

end TimestampRelay
