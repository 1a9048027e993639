/-
How a reconstruction follows the synthetic clock. The truncated timestamps of a stream do not show its hidden jumps,
so what is rebuilt from them is the clock without the jumps: it goes on by the strides alone, and lags behind the
clock of the stream by a period for each jump made so far. An item told by its index alone, without those before it,
is the one that the stream yields when it comes to it.
-/
import TimestampRelay.Feed.Synthetic
import TimestampRelay.Proofs.Counter.Clock

namespace TimestampRelay

/-- A step of so many ticks, fewer than half a turn of the clock, reads as so many. -/
theorem signedStep_add_ofNat (before : UInt64) {ticks : Nat} (hlt : ticks < 2 ^ 63) :
    signedStep before (before + .ofNat ticks) = ticks := by
  have hofInt : UInt64.ofInt ticks = .ofNat ticks := ofInt_eq_of_emod rfl
  rw [← hofInt]
  exact signedStep_add_ofInt before (by omega) (by omega)

namespace CounterField

theorem near_add_ofNat {f : CounterField} (before : UInt64) {ticks : Nat} (hlt : ticks < f.half.toNat) :
    f.Near before (before + .ofNat ticks) := by
  have hhalf := f.half.toNat_lt
  have hspan := f.span_le
  unfold Near
  rw [f.toNat_half] at hlt ⊢
  rw [signedStep_add_ofNat before (by omega)]
  exact hlt

/-- Whole periods do not show in the field. -/
theorem truncate_add_mul_period (f : CounterField) (full periods : UInt64) :
    f.truncate (full + periods * f.period) = f.truncate full := by
  obtain ⟨k, hk⟩ := f.dvd_toNat_mul_period periods
  rw [← UInt32.toNat_inj, toNat_truncate, toNat_truncate, UInt64.toNat_add, Nat.mod_mod_of_dvd _ f.span_dvd, hk,
    Nat.add_mul_mod_self_left]

end CounterField

namespace SyntheticFeed

variable {field : CounterField} {start count : UInt64} {every : Option UInt64}

/-! ## The clock by index -/

/-- Ticks from the first item to item `i`, without the jumps. -/
def ticksBefore (i : Nat) : Nat :=
  ∑ j ∈ Finset.range i, (10 + j % 100)

/-- An interval that is not zero stays in force. -/
theorem filter_interval {every : UInt64} (hne : every ≠ 0) : (some every).filter (0 < ·) = some every :=
  Option.filter_some_pos (p := fun every => decide (0 < every)) (decide_eq_true (UInt64.pos_iff_ne_zero.2 hne))

/-- Hidden jumps before item `i`: one after each item whose index the interval divides, if there is one. -/
def jumpsBefore (every : Option UInt64) (i : Nat) : Nat :=
  match every with
  | some every => if every = 0 then 0 else Nat.count (every.toNat ∣ ·) i
  | none => 0

theorem ticksBefore_succ (i : Nat) : ticksBefore (i + 1) = ticksBefore i + (10 + i % 100) :=
  Finset.sum_range_succ _ _

theorem toNat_ofNat_index {i : Nat} (hi : i < count.toNat) : (UInt64.ofNat i).toNat = i := by
  have := count.toNat_lt
  rw [UInt64.toNat_ofNat']
  omega

theorem stride_ofNat {i : Nat} (hi : i < count.toNat) : stride (.ofNat i) = .ofNat (10 + i % 100) := by
  have hindex := toNat_ofNat_index hi
  have hmod : UInt64.ofNat i % 100 = .ofNat (i % 100) := by
    rw [← UInt64.toNat_inj, UInt64.toNat_mod, hindex, UInt64.toNat_ofNat']
    show i % 100 = i % 100 % 2 ^ 64
    omega
  rw [stride, hmod, UInt64.ofNat_add]
  rfl

/-- The stream behind its first `i` items. -/
def behind (start count : UInt64) (field : CounterField) (every : Option UInt64) (i : Nat) : SyntheticFeed :=
  { (ofStart start count field).withJumpEvery every with
    clock := start + .ofNat (ticksBefore i) + .ofNat (jumpsBefore every i) * field.period
    index := .ofNat i }

theorem behind_zero (start count : UInt64) (field : CounterField) (every : Option UInt64) :
    behind start count field every 0 = (ofStart start count field).withJumpEvery every := by
  have hjumps : jumpsBefore every 0 = 0 := by
    unfold jumpsBefore
    split
    · simp
    · rfl
  simp [behind, hjumps, ticksBefore, withJumpEvery, ofStart]

/-- A jump is counted behind an item exactly if the clock makes one there. -/
theorem jumpsBefore_succ (start : UInt64) (field : CounterField) (every : Option UInt64) {i : Nat}
    (hi : i < count.toNat) :
    jumpsBefore every (i + 1) = jumpsBefore every i +
      if (behind start count field every i).jumpsAfter (.ofNat i) then 1 else 0 := by
  have hindex := toNat_ofNat_index hi
  cases every with
  | none => rfl
  | some every =>
    by_cases hzero : every = 0
    · subst hzero
      rfl
    · have hevery : (behind start count field (some every) i).jumpEvery = some every := filter_interval hzero
      have hdvd : UInt64.ofNat i % every = 0 ↔ every.toNat ∣ i := by
        rw [← UInt64.toNat_inj, UInt64.toNat_mod, hindex]
        exact Nat.dvd_iff_mod_eq_zero.symm
      simp only [jumpsBefore, if_neg hzero, Nat.count_succ, jumpsAfter, hevery, beq_iff_eq, hdvd]

/-! ## The items by index -/

/-- Item `i` of the stream. -/
def itemAt (start count : UInt64) (field : CounterField) (every : Option UInt64) (i : Nat) : Descriptor :=
  ⟨.ofNat i, payloadLen, field.truncate (behind start count field every i).clock⟩

theorem next_behind {i : Nat} (hi : i < count.toNat) :
    (behind start count field every i).next =
      some (itemAt start count field every i, behind start count field every (i + 1)) := by
  have hindex := toNat_ofNat_index hi
  have hne : UInt64.ofNat i ≠ count := by
    rintro rfl
    omega
  have hjumps := jumpsBefore_succ start field every hi
  have hstride := stride_ofNat hi
  -- The clock goes on by the stride, and by a period if it jumps.
  have hclock : (if (behind start count field every i).jumpsAfter (.ofNat i) then
        (behind start count field every i).clock + stride (.ofNat i) + field.period
      else (behind start count field every i).clock + stride (.ofNat i)) =
        (behind start count field every (i + 1)).clock := by
    show _ = start + .ofNat (ticksBefore (i + 1)) + .ofNat (jumpsBefore every (i + 1)) * field.period
    rw [ticksBefore_succ, UInt64.ofNat_add, ← hstride, hjumps, UInt64.ofNat_add]
    split
    · show start + _ + _ + _ + _ = start + _ + (_ + 1) * field.period
      grind
    · show start + _ + _ + _ = start + _ + (_ + 0) * field.period
      grind
  have hsucc : UInt64.ofNat i + 1 = .ofNat (i + 1) := by
    rw [UInt64.ofNat_add]
    rfl
  refine (if_neg hne).trans (congrArg some (Prod.ext rfl ?_))
  show SyntheticFeed.mk field _ _ count _ = SyntheticFeed.mk field _ _ count _
  rw [SyntheticFeed.mk.injEq]
  exact ⟨rfl, hclock, hsucc, rfl, rfl⟩

theorem next_behind_count : (behind start count field every count.toNat).next = none := by
  have hindex : UInt64.ofNat count.toNat = count := UInt64.ofNat_toNat
  exact if_pos hindex

theorem gather_behind (start : UInt64) (field : CounterField) (every : Option UInt64) {i : Nat}
    (hi : i ≤ count.toNat) (gathered : Array Descriptor) (n : Nat) :
    ((behind start count field every i).gather gathered n).1.toList =
        gathered.toList ++ (List.range' i (min n (count.toNat - i))).map (itemAt start count field every) ∧
      ((behind start count field every i).gather gathered n).2 =
        behind start count field every (i + min n (count.toNat - i)) := by
  induction n generalizing i gathered with
  | zero => simp [gather]
  | succ n ih =>
    rcases Nat.lt_or_eq_of_le hi with hlt | rfl
    · obtain ⟨hitems, hrest⟩ := ih (Nat.succ_le_of_lt hlt) (gathered.push (itemAt start count field every i))
      have hmin : min (n + 1) (count.toNat - i) = min n (count.toNat - (i + 1)) + 1 := by omega
      simp only [gather, next_behind hlt]
      rw [hitems, hrest, hmin, List.range'_succ, Array.toList_push]
      refine ⟨by simp, ?_⟩
      rw [Nat.succ_add, ← Nat.add_assoc]
    · simp [gather, next_behind_count]

/-- The first items of a stream, as many as are asked for or as there are, and the stream behind them. -/
theorem take_spec (start count : UInt64) (field : CounterField) (every : Option UInt64) (n : Nat) :
    (((ofStart start count field).withJumpEvery every).take n).1.toList =
        (List.range (min n count.toNat)).map (itemAt start count field every) ∧
      (((ofStart start count field).withJumpEvery every).take n).2 =
        behind start count field every (min n count.toNat) := by
  have hgather := gather_behind start field every (Nat.zero_le count.toNat) #[] n
  rw [behind_zero, Nat.sub_zero, Nat.zero_add, ← List.range_eq_range'] at hgather
  exact hgather

/-! ## The items in closed form -/

theorem strides_succ (i : Nat) : strides (i + 1) = strides i + (10 + i % 100) := by
  have htriangle := Nat.triangle_succ (i % 100)
  unfold strides
  rcases Nat.lt_or_ge (i % 100) 99 with hlt | hge
  · have hdiv : (i + 1) / 100 = i / 100 := by omega
    have hmod : (i + 1) % 100 = i % 100 + 1 := by omega
    rw [hdiv, hmod, htriangle]
    omega
  · -- The round is complete.
    have hlast : i % 100 = 99 := by omega
    have hdiv : (i + 1) / 100 = i / 100 + 1 := by omega
    have hmod : (i + 1) % 100 = 0 := by omega
    rw [hdiv, hmod, hlast]
    omega

theorem strides_eq (i : Nat) : strides i = ticksBefore i := by
  induction i with
  | zero => rfl
  | succ i ih => rw [strides_succ, ticksBefore_succ, ih]

theorem jumps_succ {every : UInt64} (hne : every ≠ 0) (i : Nat) :
    jumps (some every) (i + 1) = jumps (some every) i + if every.toNat ∣ i then 1 else 0 := by
  have hpos : 0 < every.toNat := UInt64.lt_iff_toNat_lt.1 (UInt64.pos_iff_ne_zero.2 hne)
  have hpred : i + 1 + every.toNat - 1 = i + every.toNat - 1 + 1 := by omega
  have hlast : i + every.toNat - 1 + 1 = i + every.toNat := by omega
  show (i + 1 + every.toNat - 1) / every.toNat = (i + every.toNat - 1) / every.toNat + _
  rw [hpred, Nat.succ_div]
  simp only [hlast, Nat.dvd_add_self_right]

theorem jumps_eq (every : Option UInt64) (i : Nat) : jumps (every.filter (0 < ·)) i = jumpsBefore every i := by
  cases every with
  | none => rfl
  | some every =>
    by_cases hzero : every = 0
    · subst hzero
      rfl
    · rw [filter_interval hzero, jumpsBefore, if_neg hzero]
      induction i with
      | zero =>
        have hpos : 0 < every.toNat := UInt64.lt_iff_toNat_lt.1 (UInt64.pos_iff_ne_zero.2 hzero)
        exact Nat.div_eq_of_lt (by omega)
      | succ i ih => rw [jumps_succ hzero, ih, Nat.count_succ]

theorem item?_eq_itemAt (start count : UInt64) (field : CounterField) (every : Option UInt64) (i : Nat) :
    ((ofStart start count field).withJumpEvery every).item? i =
      if i < count.toNat then some (itemAt start count field every i) else none := by
  have hclock : start + .ofNat (strides i) + .ofNat (jumps (every.filter (0 < ·)) i) * field.period =
      (behind start count field every i).clock := by
    rw [strides_eq, jumps_eq]
    rfl
  unfold itemAt
  rw [← hclock]
  rfl

/-- What is said of an item without those before it is what the stream yields when it comes to it. -/
theorem item?_eq_take (start count : UInt64) (field : CounterField) (every : Option UInt64) {i n : Nat} (hi : i < n) :
    let feed := (ofStart start count field).withJumpEvery every
    feed.item? i = (feed.take n).1.toList[i]? := by
  intro feed
  rw [item?_eq_itemAt, (take_spec start count field every n).1, List.getElem?_map]
  split
  · rw [List.getElem?_range (by omega)]
    rfl
  · rw [List.getElem?_eq_none (by rw [List.length_range]; omega)]
    rfl

/-! ## What is rebuilt -/

/-- The clock without its jumps. -/
def plainClock (start : UInt64) (i : Nat) : UInt64 :=
  start + .ofNat (ticksBefore i)

theorem truncatedTs_itemAt (start count : UInt64) (field : CounterField) (every : Option UInt64) (i : Nat) :
    (itemAt start count field every i).truncatedTs = field.truncate (plainClock start i) :=
  field.truncate_add_mul_period _ _

/-- Without its jumps the clock makes only steps that are shorter than half a period. -/
theorem isChain_plainClock (hhalf : 109 < field.half.toNat) (start : UInt64) (n : Nat) :
    (start :: (List.range n).map (plainClock start)).IsChain field.Near := by
  have hzero : plainClock start 0 = start := by simp [plainClock, ticksBefore]
  have hstep : ∀ i, field.Near (plainClock start i) (plainClock start (i + 1)) := by
    intro i
    have hnear := field.near_add_ofNat (plainClock start i) (show 10 + i % 100 < field.half.toNat by omega)
    unfold plainClock at hnear ⊢
    rw [ticksBefore_succ, UInt64.ofNat_add, ← UInt64.add_assoc]
    exact hnear
  cases n with
  | zero => exact .singleton _
  | succ n =>
    rw [List.isChain_cons]
    constructor
    · rw [List.range_succ_eq_map]
      rintro first ⟨⟩
      have hnear := field.near_add_ofNat start (show 0 < field.half.toNat by omega)
      rw [hzero]
      simpa using hnear
    · rw [List.isChain_map]
      exact (List.isChain_range_succ _ n).2 fun i _ => hstep i

/-- A reconstruction that starts from the first clock of a stream and takes in the timestamps of its items, in calls
of any kind. However the stream jumps, what is rebuilt for item `i` is the first clock and the strides before
the item. The clock that the item was truncated from is ahead of that by a period for every jump before the
item, modulo 2^64. -/
theorem rebuilt_stream (start count : UInt64) {field : CounterField} (hhalf : 109 < field.half.toNat)
    (every : Option UInt64) (n : Nat) :
    let feed := (ofStart start count field).withJumpEvery every
    let items := (feed.take n).1.toList
    ∀ calls : List Unwrapper.Call, calls.flatMap Unwrapper.Call.consumed = items.map Descriptor.truncatedTs →
      let rebuilt := ((Unwrapper.ofSeed field start).performAll calls).1
      items.length = min n count.toNat ∧ rebuilt.length = items.length ∧
        ∀ i < items.length,
          let clock := (feed.take i).2.clock
          items[i]? = some ⟨.ofNat i, payloadLen, field.truncate clock⟩ ∧
            rebuilt[i]? = some (start + .ofNat (∑ j ∈ Finset.range i, (10 + j % 100))) ∧
            clock - (start + .ofNat (∑ j ∈ Finset.range i, (10 + j % 100))) =
              .ofNat (jumpsBefore every i) * field.period := by
  intro feed items calls hcalls rebuilt
  have hitems : items = (List.range (min n count.toNat)).map (itemAt start count field every) :=
    (take_spec start count field every n).1
  have hrebuilt : rebuilt = (List.range (min n count.toNat)).map (plainClock start) := by
    have hclock : items.map Descriptor.truncatedTs =
        ((List.range (min n count.toNat)).map (plainClock start)).map field.truncate := by
      rw [hitems, List.map_map, List.map_map]
      exact List.map_congr_left fun i _ => truncatedTs_itemAt start count field every i
    have hperform := congrArg Prod.fst (Unwrapper.performAll_eq (Unwrapper.ofSeed field start) calls)
    rw [hcalls, hclock] at hperform
    refine hperform.trans ?_
    exact (Unwrapper.ofSeed_tracks field start).values_eq (Unwrapper.current_ofSeed field start)
      (isChain_plainClock hhalf start _)
  have hlength : items.length = min n count.toNat := by
    rw [hitems, List.length_map, List.length_range]
  refine ⟨hlength, by rw [hrebuilt, hlength, List.length_map, List.length_range], ?_⟩
  intro i hi clock
  rw [hlength] at hi
  have hclock : clock = (behind start count field every i).clock := by
    have hmin : min i count.toNat = i := by omega
    show (feed.take i).2.clock = _
    rw [(take_spec start count field every i).2, hmin]
  refine ⟨?_, ?_, ?_⟩
  · rw [hitems, hclock, List.getElem?_map, List.getElem?_range hi]
    rfl
  · rw [hrebuilt, List.getElem?_map, List.getElem?_range hi]
    rfl
  · rw [hclock]
    show start + _ + _ - (start + _) = _
    unfold ticksBefore
    grind

/-- A field of eight bits, a clock that passes 2^64 before its fourth item, and a jump after every other item. The
timestamps are taken in by calls of two kinds. At the last item the stream is two periods ahead. -/
theorem rebuilt_stream_past_zero :
    let field : CounterField := ⟨8, by decide, by decide⟩
    let feed := (ofStart 0xffffffffffffffe2 5 field).withJumpEvery (some 2)
    let items := (feed.take 9).1.toList
    let calls : List Unwrapper.Call := [.one 226, .extendByLanes [236, 247, 3, 16] [0, 0, 0, 0]]
    109 < field.half.toNat ∧ calls.flatMap Unwrapper.Call.consumed = items.map Descriptor.truncatedTs ∧
      items.length = 5 ∧ ((Unwrapper.ofSeed field 0xffffffffffffffe2).performAll calls).1[4]? = some 16 ∧
      (feed.take 4).2.clock - 16 = 2 * 256 := by
  intro field feed items calls
  have hhalf : 109 < field.half.toNat := by decide
  have hcalls : calls.flatMap Unwrapper.Call.consumed = items.map Descriptor.truncatedTs := by decide
  obtain ⟨hlength, -, hitem⟩ := rebuilt_stream 0xffffffffffffffe2 5 hhalf (some 2) 9 calls hcalls
  have hfive : items.length = 5 := hlength
  obtain ⟨-, hrebuilt, hlag⟩ := hitem 4 (hfive.symm ▸ Nat.lt_succ_self 4)
  have hplain : (0xffffffffffffffe2 : UInt64) + .ofNat (∑ j ∈ Finset.range 4, (10 + j % 100)) = 16 := by decide
  have hjumps : UInt64.ofNat (jumpsBefore (some 2) 4) * field.period = 2 * 256 := by decide
  rw [hplain] at hrebuilt hlag
  exact ⟨hhalf, hcalls, hfive, hrebuilt, hlag.trans hjumps⟩

end SyntheticFeed

end TimestampRelay
