/-
Which value a sample stands for. A sample leaves one value in every period. The one that is rebuilt is nearest to the
value rebuilt before, whichever way round 2^64 is shorter; where two are equally near, half a period away in either
direction, it is the one that shares its upper bits with the value before. No other value is like that.
-/
import TimestampRelay.Proofs.Counter.Clock

namespace TimestampRelay

namespace CounterField

variable {f : CounterField} {before now other : UInt64} {raw : UInt32}

/-! ## Nearest values -/

/-- A value that a sample can stand for, at most half a period from the value before. One just half a period away
belongs to the same period. -/
structure Nearest (f : CounterField) (before : UInt64) (raw : UInt32) (now : UInt64) : Prop where
  sample : now.toNat % f.span = raw.toNat % f.span
  within : (signedStep before now).natAbs ≤ f.half.toNat
  tie : (signedStep before now).natAbs = f.half.toNat → now &&& ~~~f.mask = before &&& ~~~f.mask

instance (f : CounterField) (before : UInt64) (raw : UInt32) (now : UInt64) :
    Decidable (f.Nearest before raw now) :=
  decidable_of_iff (_ ∧ _ ∧ _) ⟨fun h => ⟨h.1, h.2.1, h.2.2⟩, fun h => ⟨h.sample, h.within, h.tie⟩⟩

theorem Nearest.and_mask_eq (h : f.Nearest before raw now) (h' : f.Nearest before raw other) :
    now &&& f.mask = other &&& f.mask := by
  rw [← UInt64.toNat_inj, toNat_and_mask, toNat_and_mask, h.sample, h'.sample]

theorem eq_of_and_mask_eq (hupper : now &&& ~~~f.mask = other &&& ~~~f.mask)
    (hlow : now &&& f.mask = other &&& f.mask) : now = other := by
  rw [← f.and_not_mask_add_and_mask now, hupper, hlow, f.and_not_mask_add_and_mask]

theorem eq_of_signedStep_eq (h : signedStep before now = signedStep before other) : now = other := by
  have hsub : now - before = other - before := by rw [← ofInt_signedStep, h, ofInt_signedStep]
  grind

/-- Steps to values with the same low bits are whole periods apart. -/
theorem exists_signedStep_sub_eq (before : UInt64) (hlow : now &&& f.mask = other &&& f.mask) :
    ∃ turns : Int, signedStep before now - signedStep before other = turns * f.span := by
  obtain ⟨turns, hturns⟩ := Unwrapper.exists_signedStep_eq_samples f before now
  obtain ⟨turns', hturns'⟩ := Unwrapper.exists_signedStep_eq_samples f before other
  refine ⟨turns - turns', ?_⟩
  rw [hturns, hturns', hlow]
  ring

/-- A sample stands for one value only. -/
theorem Nearest.unique (h : f.Nearest before raw now) (h' : f.Nearest before raw other) : now = other := by
  have hlow := h.and_mask_eq h'
  obtain ⟨turns, hturns⟩ := exists_signedStep_sub_eq before hlow
  have hspan := f.span_eq_two_mul_half
  have hpos : (0 : Int) < f.span := by exact_mod_cast f.span_pos
  have hwithin := h.within
  have hwithin' := h'.within
  rw [f.toNat_half] at hwithin hwithin'
  by_cases heq : signedStep before now = signedStep before other
  · exact eq_of_signedStep_eq heq
  · -- Different steps are a period apart at least, so both lead just half a period away, into the same period.
    have hturns_ne : turns ≠ 0 := by
      rintro rfl
      rw [zero_mul] at hturns
      omega
    have hfar : (f.span : Int) ≤ (signedStep before now - signedStep before other).natAbs := by
      rw [hturns, Int.natAbs_mul, Int.natAbs_natCast]
      exact_mod_cast Nat.le_mul_of_pos_left f.span (Int.natAbs_pos.2 hturns_ne)
    have hhalf : (signedStep before now).natAbs = f.half.toNat := by
      rw [f.toNat_half]
      omega
    have hhalf' : (signedStep before other).natAbs = f.half.toNat := by
      rw [f.toNat_half]
      omega
    exact eq_of_and_mask_eq ((h.tie hhalf).trans (h'.tie hhalf').symm) hlow

end CounterField

namespace Unwrapper

variable {u : Unwrapper}

/-! ## Upper bits and samples -/

/-- The upper bits in force are a whole number of periods, and the last sample fits the field. -/
structure Aligned (u : Unwrapper) : Prop where
  era : u.field.span ∣ u.era.toNat
  last : u.last.toNat < u.field.span

theorem ofSeed_aligned (field : CounterField) (seed : UInt64) : (ofSeed field seed).Aligned :=
  ⟨field.dvd_toNat_and_not_mask seed, field.toNat_and_mask_lt seed⟩

theorem Aligned.advance (h : u.Aligned) (raw : UInt32) : (u.advance raw).Aligned := by
  constructor
  · rw [era_advance]
    exact CounterField.dvd_toNat_add h.era (u.field.dvd_toNat_mul_period _)
  · exact u.field.toNat_and_mask_lt raw.toUInt64

theorem Aligned.advanceAll (h : u.Aligned) (raws : List UInt32) : (u.advanceAll raws).Aligned := by
  induction raws generalizing u with
  | nil => exact h
  | cons raw raws ih => exact ih (h.advance raw)

theorem field_advanceAll (u : Unwrapper) (raws : List UInt32) : (u.advanceAll raws).field = u.field := by
  induction raws generalizing u with
  | nil => rfl
  | cons raw raws ih => exact ih (u.advance raw)

theorem Aligned.current_eq (h : u.Aligned) : u.current = u.era + u.last :=
  CounterField.or_eq_add h.era h.last

theorem Aligned.current_and_mask (h : u.Aligned) : u.current &&& u.field.mask = u.last := by
  obtain ⟨k, hk⟩ := h.era
  rw [← UInt64.toNat_inj, CounterField.toNat_and_mask, h.current_eq, UInt64.toNat_add,
    Nat.mod_mod_of_dvd _ u.field.span_dvd, hk, Nat.mul_add_mod, Nat.mod_eq_of_lt h.last]

theorem Aligned.current_and_not_mask (h : u.Aligned) : u.current &&& ~~~u.field.mask = u.era := by
  have hsplit := u.field.and_not_mask_add_and_mask u.current
  rw [h.current_and_mask] at hsplit
  have hsum := hsplit.trans h.current_eq
  grind

/-! ## One sample -/

/-- What is rebuilt moves by the difference of the samples and the rollovers counted between them. -/
theorem Aligned.current_advance (h : u.Aligned) (raw : UInt32) :
    (u.advance raw).current = u.current +
      .ofInt (rollovers u.field.half u.last (u.reading raw) * u.field.span +
        ((u.reading raw).toNat - u.last.toNat)) := by
  rw [(h.advance raw).current_eq, h.current_eq, era_advance, last_advance, shifted, UInt64.ofInt_add,
    UInt64.ofInt_mul, ofInt_toNat_sub_toNat, u.field.ofInt_span]
  grind

/-- Where rollovers are counted the step is shorter than half a period, and where none are it is at most half a
period. -/
theorem Aligned.signedStep_advance (h : u.Aligned) (raw : UInt32) :
    (signedStep u.current (u.advance raw).current).natAbs < u.field.half.toNat ∨
      (signedStep u.current (u.advance raw).current).natAbs ≤ u.field.half.toNat ∧
        (u.advance raw).era = u.era := by
  have hlast := h.last
  have hreading := (h.advance raw).last
  have hspan := u.field.span_eq_two_mul_half
  have hle := u.field.span_le
  have hcases := rollovers_cases u.field.half u.last (u.reading raw)
  have hera := era_advance u raw
  rw [last_advance, field_advance] at hreading
  rw [u.field.toNat_half] at hcases ⊢
  rw [h.current_advance]
  rcases hcases with ⟨hfar, heq⟩ | ⟨hfar, heq⟩ | ⟨hnear, hnear', heq⟩ <;> rw [heq] at hera ⊢
  · rw [signedStep_add_ofInt _ (by omega) (by omega)]
    exact .inl (by omega)
  · rw [signedStep_add_ofInt _ (by omega) (by omega)]
    exact .inl (by omega)
  · rw [signedStep_add_ofInt _ (by omega) (by omega)]
    exact .inr ⟨by omega, hera.trans u.shifted_zero⟩

/-- What is rebuilt from a sample is nearest to what was rebuilt before. -/
theorem Aligned.nearest (h : u.Aligned) (raw : UInt32) :
    u.field.Nearest u.current raw (u.advance raw).current := by
  have hnext := h.advance raw
  have hstep := h.signedStep_advance raw
  constructor
  · have hlow := congrArg UInt64.toNat hnext.current_and_mask
    rw [last_advance, field_advance, reading, CounterField.toNat_and_mask, CounterField.toNat_and_mask,
      UInt32.toNat_toUInt64] at hlow
    exact hlow
  · rcases hstep with hlt | ⟨hle, -⟩
    · exact hlt.le
    · exact hle
  · intro htie
    rcases hstep with hlt | ⟨-, hera⟩
    · exact absurd htie hlt.ne
    · rw [h.current_and_not_mask, ← hera]
      exact hnext.current_and_not_mask

/-- After calls of any kind, one sample more. The upper bits in force are a whole number of periods and the last
sample lies below the period. The value handed back is the one rebuilt last from then on, and of all 64-bit values it
is the only one nearest to the value rebuilt before. -/
theorem nearest_value_rebuilt (field : CounterField) (seed : UInt64) (calls : List Call) (raw : UInt32) :
    let u := ((ofSeed field seed).performAll calls).2
    let (count, slice, next) := u.perform (.one raw)
    (field.span ∣ u.era.toNat ∧ u.last.toNat < field.span) ∧
      (field.span ∣ next.era.toNat ∧ next.last.toNat < field.span) ∧
      count = 1 ∧ slice = [next.current] ∧
      ∀ v, field.Nearest u.current raw v ↔ v = next.current := by
  intro u
  have hu : u = (ofSeed field seed).advanceAll (calls.flatMap Call.consumed) :=
    congrArg Prod.snd (performAll_eq _ calls)
  have hfield : u.field = field := by
    rw [hu, field_advanceAll]
    rfl
  have haligned : u.Aligned := by
    rw [hu]
    exact (ofSeed_aligned field seed).advanceAll _
  have hnext := haligned.advance raw
  have hnearest := haligned.nearest raw
  simp only [perform]
  rw [← hfield]
  refine ⟨⟨haligned.era, haligned.last⟩, ⟨hnext.era, hnext.last⟩, trivial, trivial, fun v => ?_⟩
  constructor
  · intro hv
    exact hv.unique hnearest
  · rintro rfl
    exact hnearest

/-- Half a period ahead and half a period back are both as near; neither leaves the period. -/
example :
    let field : CounterField := ⟨8, by decide, by decide⟩
    ((ofSeed field 0x300).advance 128).current = 0x380 ∧ ((ofSeed field 0x380).advance 0).current = 0x300 := by
  decide

end Unwrapper

end TimestampRelay
