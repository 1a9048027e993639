/-
Rebuilding a clock from its truncated values. What is rebuilt differs from the clock by a multiple of the
period, and the difference stays the same over every step of the clock that is shorter than half a
period, in either direction. So a clock that makes no longer steps is rebuilt exactly, also where
it passes 2^64 or zero.
-/
import TimestampRelay.Proofs.Counter.Lanes
import Mathlib.Tactic

namespace TimestampRelay

/-! ## Signed steps -/

/-- The step from one value of a clock to another, forward or backward, whichever way round 2^64 is
shorter. -/
def signedStep (before now : UInt64) : Int :=
  (now - before).toInt64.toInt

theorem toNat_ofInt (z : Int) : ((UInt64.ofInt z).toNat : Int) = z % 2 ^ 64 := by
  show ((UInt64.ofNat (z % 2 ^ 64).toNat).toNat : Int) = _
  rw [UInt64.toNat_ofNat']
  omega

theorem ofInt_eq_of_emod {z : Int} {x : UInt64} (h : z % 2 ^ 64 = x.toNat) : UInt64.ofInt z = x := by
  rw [← UInt64.toNat_inj]
  exact_mod_cast (toNat_ofInt z).trans h

theorem ofInt_toNat_sub_toNat (x y : UInt64) : UInt64.ofInt ((x.toNat : Int) - y.toNat) = x - y := by
  refine ofInt_eq_of_emod ?_
  have := x.toNat_lt
  have := y.toNat_lt
  rw [UInt64.toNat_sub]
  omega

theorem signedStep_eq_or (before now : UInt64) :
    signedStep before now = (now - before).toNat ∨
      signedStep before now = ((now - before).toNat : Int) - 2 ^ 64 := by
  have hsame : (now - before).toBitVec.toNat = (now - before).toNat := rfl
  show (now - before).toBitVec.toInt = _ ∨ (now - before).toBitVec.toInt = _
  rw [BitVec.toInt_eq_toNat_cond, hsame]
  split <;> omega

theorem ofInt_signedStep (before now : UInt64) : UInt64.ofInt (signedStep before now) = now - before := by
  have := (now - before).toNat_lt
  refine ofInt_eq_of_emod ?_
  rcases signedStep_eq_or before now with h | h <;> omega

/-- A step of so many ticks, forward or backward and less than half a turn of the clock, reads as so many. -/
theorem signedStep_add_ofInt (before : UInt64) {ticks : Int} (hlo : -2 ^ 63 ≤ ticks) (hhi : ticks < 2 ^ 63) :
    signedStep before (before + .ofInt ticks) = ticks := by
  have hsub : before + .ofInt ticks - before = UInt64.ofInt ticks := by grind
  have htoNat : ((UInt64.ofInt ticks).toBitVec.toNat : Int) = ticks % 2 ^ 64 := toNat_ofInt ticks
  show (before + .ofInt ticks - before).toBitVec.toInt = ticks
  rw [hsub, BitVec.toInt_eq_toNat_cond]
  split <;> omega

/-- A signed step is the difference of the two values, up to a multiple of 2^64. -/
theorem exists_signedStep_eq (before now : UInt64) :
    ∃ turns : Int, signedStep before now = (now.toNat : Int) - before.toNat + turns * 2 ^ 64 := by
  have hsub := UInt64.toNat_sub now before
  have := now.toNat_lt
  have := before.toNat_lt
  refine ⟨(signedStep before now - ((now.toNat : Int) - before.toNat)) / 2 ^ 64, ?_⟩
  rcases signedStep_eq_or before now with h | h <;> omega

/-! ## Multiples of the period -/

namespace CounterField

variable {f : CounterField} {x y : UInt64}

theorem span_dvd (f : CounterField) : f.span ∣ 2 ^ 64 :=
  Nat.pow_dvd_pow 2 (le_trans f.width_le (by decide))

theorem dvd_toNat_add (hx : f.span ∣ x.toNat) (hy : f.span ∣ y.toNat) : f.span ∣ (x + y).toNat := by
  rw [UInt64.toNat_add]
  exact (Nat.dvd_mod_iff f.span_dvd).2 (Nat.dvd_add hx hy)

theorem dvd_toNat_sub (hx : f.span ∣ x.toNat) (hy : f.span ∣ y.toNat) : f.span ∣ (x - y).toNat := by
  rw [UInt64.toNat_sub]
  exact (Nat.dvd_mod_iff f.span_dvd).2 (Nat.dvd_add (Nat.dvd_sub f.span_dvd hy) hx)

theorem dvd_toNat_mul_period (f : CounterField) (x : UInt64) : f.span ∣ (x * f.period).toNat := by
  rw [UInt64.toNat_mul, toNat_period]
  exact (Nat.dvd_mod_iff f.span_dvd).2 (Nat.dvd_mul_left _ _)

theorem dvd_toNat_and_not_mask (f : CounterField) (x : UInt64) : f.span ∣ (x &&& ~~~f.mask).toNat := by
  refine Nat.dvd_of_mod_eq_zero ?_
  rw [← toNat_and_mask, UInt64.and_assoc, UInt64.and_comm (~~~f.mask), UInt64.and_not_self, UInt64.and_zero]
  rfl

theorem toNat_and_mask_lt (f : CounterField) (x : UInt64) : (x &&& f.mask).toNat < f.span := by
  rw [toNat_and_mask]
  exact Nat.mod_lt _ f.span_pos

/-- Upper bits and low bits do not meet, so they add up. -/
theorem or_eq_add (hx : f.span ∣ x.toNat) (hy : y.toNat < f.span) : x ||| y = x + y := by
  obtain ⟨a, ha⟩ := hx
  have hor : x.toNat ||| y.toNat = x.toNat + y.toNat := by
    rw [ha]
    exact (Nat.two_pow_add_eq_or_of_lt hy a).symm
  have hlt := (x ||| y).toNat_lt
  rw [UInt64.toNat_or, hor] at hlt
  rw [← UInt64.toNat_inj, UInt64.toNat_or, hor, UInt64.toNat_add, Nat.mod_eq_of_lt hlt]

theorem ofInt_span (f : CounterField) : UInt64.ofInt f.span = f.period := by
  refine ofInt_eq_of_emod ?_
  have := f.span_le
  rw [f.toNat_period]
  omega

/-- A value is its upper bits and its low bits together. -/
theorem and_not_mask_add_and_mask (f : CounterField) (x : UInt64) : (x &&& ~~~f.mask) + (x &&& f.mask) = x := by
  rw [← or_eq_add (f.dvd_toNat_and_not_mask x) (f.toNat_and_mask_lt x), ← UInt64.toBitVec_inj]
  ext i hi
  simp only [UInt64.toBitVec_or, UInt64.toBitVec_and, UInt64.toBitVec_not, BitVec.getElem_or,
    BitVec.getElem_and, BitVec.getElem_not]
  cases x.toBitVec[i] <;> simp

/-! ## Rollovers and signed steps -/

/-- The clock goes from one value to the other by less than half a period, in either direction. -/
def Near (f : CounterField) (before now : UInt64) : Prop :=
  (signedStep before now).natAbs < f.half.toNat

instance (f : CounterField) (before now : UInt64) : Decidable (f.Near before now) :=
  inferInstanceAs (Decidable (_ < _))

end CounterField

namespace Unwrapper

theorem forward_iff (half before now : UInt64) :
    forward half before now = true ↔ now.toNat + half.toNat < before.toNat := by
  simp only [forward, Bool.and_eq_true, decide_eq_true_eq, UInt64.lt_iff_toNat_lt]
  constructor
  · rintro ⟨hlt, hhalf⟩
    rw [UInt64.toNat_sub_of_le _ _ (UInt64.le_iff_toNat_le.2 hlt.le)] at hhalf
    omega
  · intro h
    have hlt : now.toNat < before.toNat := by omega
    rw [UInt64.toNat_sub_of_le _ _ (UInt64.le_iff_toNat_le.2 hlt.le)]
    omega

theorem backward_iff (half before now : UInt64) :
    backward half before now = true ↔ before.toNat + half.toNat < now.toNat :=
  forward_iff half now before

/-- Which rollovers are counted, by how far apart the samples are. -/
theorem rollovers_cases (half before now : UInt64) :
    now.toNat + half.toNat < before.toNat ∧ rollovers half before now = 1 ∨
      before.toNat + half.toNat < now.toNat ∧ rollovers half before now = -1 ∨
      before.toNat ≤ now.toNat + half.toNat ∧ now.toNat ≤ before.toNat + half.toNat ∧
        rollovers half before now = 0 := by
  unfold rollovers
  by_cases hf : now.toNat + half.toNat < before.toNat
  · refine .inl ⟨hf, ?_⟩
    have hforward := (forward_iff half before now).2 hf
    simp [hforward, backward_eq_false hforward]
  · have hforward : forward half before now = false := by
      rw [← Bool.not_eq_true, forward_iff]
      exact hf
    by_cases hb : before.toNat + half.toNat < now.toNat
    · refine .inr (.inl ⟨hb, ?_⟩)
      simp [hforward, (backward_iff half before now).2 hb]
    · have hbackward : backward half before now = false := by
        rw [← Bool.not_eq_true, backward_iff]
        exact hb
      refine .inr (.inr ⟨by omega, by omega, ?_⟩)
      simp [hforward, hbackward]

/-- Up to a multiple of the period, a step is the difference of the samples. -/
theorem exists_signedStep_eq_samples (f : CounterField) (before now : UInt64) :
    ∃ turns : Int, signedStep before now = turns * f.span +
      (((now &&& f.mask).toNat : Int) - (before &&& f.mask).toNat) := by
  obtain ⟨turns, hturns⟩ := exists_signedStep_eq before now
  obtain ⟨eras, heras⟩ := f.span_dvd
  have hbefore : (before.toNat : Int) = f.span * (before.toNat / f.span : Nat) + (before &&& f.mask).toNat := by
    rw [f.toNat_and_mask]
    exact_mod_cast (Nat.div_add_mod before.toNat f.span).symm
  have hnow : (now.toNat : Int) = f.span * (now.toNat / f.span : Nat) + (now &&& f.mask).toNat := by
    rw [f.toNat_and_mask]
    exact_mod_cast (Nat.div_add_mod now.toNat f.span).symm
  have hword : (2 : Int) ^ 64 = f.span * eras := by exact_mod_cast heras
  refine ⟨(now.toNat / f.span : Nat) - (before.toNat / f.span : Nat) + turns * eras, ?_⟩
  rw [hturns, hbefore, hnow, hword]
  ring

/-- A step shorter than half a period is the difference of the samples and the rollovers counted between
them. -/
theorem signedStep_eq_rollovers {f : CounterField} {before now : UInt64} (h : f.Near before now) :
    signedStep before now = rollovers f.half (before &&& f.mask) (now &&& f.mask) * f.span +
      (((now &&& f.mask).toNat : Int) - (before &&& f.mask).toNat) := by
  obtain ⟨turns, hturns⟩ := exists_signedStep_eq_samples f before now
  have hbefore := f.toNat_and_mask_lt before
  have hnow := f.toNat_and_mask_lt now
  have hspan := f.span_eq_two_mul_half
  have hcases := rollovers_cases f.half (before &&& f.mask) (now &&& f.mask)
  rw [CounterField.Near, f.toNat_half] at h
  rw [f.toNat_half] at hcases
  -- No other number of periods leads from one sample to the other in so short a step.
  have hpos : (0 : Int) < f.span := by exact_mod_cast f.span_pos
  have hlo : (rollovers f.half (before &&& f.mask) (now &&& f.mask) - 1) * f.span < turns * f.span := by
    rcases hcases with ⟨hfar, heq⟩ | ⟨hfar, heq⟩ | ⟨hnear, hnear', heq⟩ <;> rw [heq] <;> omega
  have hhi : turns * f.span < (rollovers f.half (before &&& f.mask) (now &&& f.mask) + 1) * f.span := by
    rcases hcases with ⟨hfar, heq⟩ | ⟨hfar, heq⟩ | ⟨hnear, hnear', heq⟩ <;> rw [heq] <;> omega
  have hturns' : turns = rollovers f.half (before &&& f.mask) (now &&& f.mask) := by
    have := lt_of_mul_lt_mul_right hlo hpos.le
    have := lt_of_mul_lt_mul_right hhi hpos.le
    omega
  rw [hturns, hturns']

/-! ## One sample of a clock -/

variable {u : Unwrapper} {before now : UInt64}

/-- The last sample was taken from a clock with this value, and the upper bits are a whole number of
periods. -/
structure Tracks (u : Unwrapper) (clock : UInt64) : Prop where
  last : u.last = clock &&& u.field.mask
  era : u.field.span ∣ u.era.toNat

theorem ofSeed_tracks (field : CounterField) (seed : UInt64) : (ofSeed field seed).Tracks seed :=
  ⟨rfl, field.dvd_toNat_and_not_mask seed⟩

theorem reading_truncate (u : Unwrapper) (clock : UInt64) :
    u.reading (u.field.truncate clock) = clock &&& u.field.mask := by
  rw [← UInt64.toNat_inj, reading, CounterField.toNat_and_mask, CounterField.toNat_and_mask,
    UInt32.toNat_toUInt64, CounterField.toNat_truncate, Nat.mod_mod]

theorem Tracks.advance (h : u.Tracks before) (now : UInt64) : (u.advance (u.field.truncate now)).Tracks now := by
  constructor
  · rw [last_advance, reading_truncate]
    rfl
  · rw [era_advance]
    exact CounterField.dvd_toNat_add h.era (u.field.dvd_toNat_mul_period _)

theorem Tracks.current_eq (h : u.Tracks now) : u.current = u.era + (now &&& u.field.mask) := by
  rw [current, h.last]
  exact CounterField.or_eq_add h.era (u.field.toNat_and_mask_lt now)

theorem current_ofSeed (field : CounterField) (seed : UInt64) : (ofSeed field seed).current = seed := by
  rw [(ofSeed_tracks field seed).current_eq]
  exact field.and_not_mask_add_and_mask seed

/-- What is rebuilt differs from the clock by a multiple of the period. -/
theorem Tracks.dvd_error (h : u.Tracks now) : u.field.span ∣ (u.current - now).toNat := by
  have hsplit : u.current - now = u.era - (now &&& ~~~u.field.mask) := by
    have hnow := u.field.and_not_mask_add_and_mask now
    rw [h.current_eq]
    grind
  rw [hsplit]
  exact CounterField.dvd_toNat_sub h.era (u.field.dvd_toNat_and_not_mask now)

/-- A step shorter than half a period is made by what is rebuilt as well. -/
theorem Tracks.error_advance (h : u.Tracks before) (hnear : u.field.Near before now) :
    (u.advance (u.field.truncate now)).current - now = u.current - before := by
  have hstep := congrArg UInt64.ofInt (signedStep_eq_rollovers hnear)
  rw [ofInt_signedStep, UInt64.ofInt_add, UInt64.ofInt_mul, ofInt_toNat_sub_toNat] at hstep
  rw [u.field.ofInt_span] at hstep
  rw [(h.advance now).current_eq, h.current_eq, era_advance, reading_truncate, h.last, shifted, field_advance]
  grind

/-! ## A whole clock -/

/-- What is rebuilt from the samples of a clock, in pairs with the clock: every difference is a multiple of
the period, and none changes over a step shorter than half a period. -/
theorem Tracks.errors (h : u.Tracks before) (clocks : List UInt64) :
    (∀ p ∈ (u.values (clocks.map u.field.truncate)).zip clocks, u.field.span ∣ (p.1 - p.2).toNat) ∧
      ((u.current, before) :: (u.values (clocks.map u.field.truncate)).zip clocks).IsChain fun p q =>
        u.field.Near p.2 q.2 → q.1 - q.2 = p.1 - p.2 := by
  induction clocks generalizing u before with
  | nil => exact ⟨by simp [values], .singleton _⟩
  | cons now clocks ih =>
    have hnow := h.advance now
    obtain ⟨hdvd, hchain⟩ := ih hnow
    simp only [field_advance] at hdvd hchain
    simp only [List.map_cons, values, List.zip_cons_cons, List.forall_mem_cons, List.isChain_cons_cons]
    exact ⟨⟨hnow.dvd_error, hdvd⟩, h.error_advance, hchain⟩

/-- From a value that is right, a clock that makes only steps shorter than half a period is rebuilt as it
is. -/
theorem Tracks.values_eq (h : u.Tracks before) (hstart : u.current = before) {clocks : List UInt64}
    (hnear : (before :: clocks).IsChain u.field.Near) : u.values (clocks.map u.field.truncate) = clocks := by
  induction clocks generalizing u before with
  | nil => rfl
  | cons now clocks ih =>
    rw [List.isChain_cons_cons] at hnear
    have herror := h.error_advance hnear.1
    have hnow : (u.advance (u.field.truncate now)).current = now := by
      rw [hstart] at herror
      grind
    have hrest := ih (h.advance now) hnow hnear.2
    rw [field_advance] at hrest
    rw [List.map_cons, values, hnow, hrest]

/-- A reconstruction that takes in the truncated values of a clock, in calls of any kind, from a seed. In
pairs with the clock, behind the seed paired with itself: every value rebuilt differs from the clock
by a multiple of the period, modulo 2^64, and the difference stays the same over every step of the
clock shorter than half a period. A clock that makes no other steps from the seed on is rebuilt exactly. -/
theorem rebuilt_clock (field : CounterField) (seed : UInt64) (clocks : List UInt64) (calls : List Call)
    (hcalls : calls.flatMap Call.consumed = clocks.map field.truncate) :
    let rebuilt := ((ofSeed field seed).performAll calls).1
    rebuilt.length = clocks.length ∧
      (∀ p ∈ rebuilt.zip clocks, field.span ∣ (p.1 - p.2).toNat) ∧
      (((seed, seed) :: rebuilt.zip clocks).IsChain fun p q =>
        field.Near p.2 q.2 → q.1 - q.2 = p.1 - p.2) ∧
      ((seed :: clocks).IsChain field.Near → rebuilt = clocks) := by
  intro rebuilt
  have htracks := ofSeed_tracks field seed
  have hstart := current_ofSeed field seed
  have hrebuilt : rebuilt = (ofSeed field seed).values (clocks.map field.truncate) := by
    rw [← hcalls]
    exact congrArg Prod.fst (performAll_eq _ calls)
  obtain ⟨hdvd, hchain⟩ := htracks.errors clocks
  rw [hstart] at hchain
  rw [hrebuilt]
  refine ⟨?_, hdvd, hchain, htracks.values_eq hstart⟩
  rw [length_values, List.length_map]

/-- A clock that passes 2^64 and goes back below zero, read by a field of eight bits and taken in by calls of
all kinds. The last call has a sample more than it has room for. -/
theorem rebuilt_clock_past_zero :
    let field : CounterField := ⟨8, by decide, by decide⟩
    let clocks : List UInt64 := [0xfffffffffffffffd, 100, 0xfffffffffffffff0, 20, 140]
    let calls : List Call := [.one 253, .extendByLanes [100, 240] [0, 0, 0],
      .extendDescriptors [⟨7, 7, 20⟩] [0], .extend [140, 9] [0]]
    ((0xfffffffffffffffa : UInt64) :: clocks).IsChain field.Near ∧
      ((ofSeed field 0xfffffffffffffffa).performAll calls).1 = clocks := by
  intro field clocks calls
  have hcalls : calls.flatMap Call.consumed = clocks.map field.truncate := by decide
  have hnear : ((0xfffffffffffffffa : UInt64) :: clocks).IsChain field.Near := by decide
  exact ⟨hnear, (rebuilt_clock field 0xfffffffffffffffa clocks calls hcalls).2.2.2 hnear⟩

end Unwrapper

end TimestampRelay
