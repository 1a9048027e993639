/-
A counter field of 1 to 32 bits: the part of a clock that a device writes down. The field rolls
over every `period` ticks; a full-width value is truncated to its low bits.
-/
import TimestampRelay.Fault

namespace TimestampRelay

/-- A counter field of `width` bits. -/
structure CounterField where
  width : Nat
  width_pos : 0 < width
  width_le : width ≤ 32
  deriving DecidableEq

namespace CounterField

/-- The field of the given width, if a descriptor has room for it. -/
def ofWidth? (bits : UInt32) : Except Fault CounterField :=
  if h : 0 < bits.toNat ∧ bits.toNat ≤ 32 then .ok ⟨bits.toNat, h.1, h.2⟩
  else .error (.invalidFieldWidth bits)

/-- The field that devices use unless said otherwise. -/
def standard : CounterField :=
  ⟨20, by decide, by decide⟩

/-- How many values the field has. -/
def span (f : CounterField) : Nat :=
  Nat.pow 2 f.width

/-- Ticks between two rollovers. -/
def period (f : CounterField) : UInt64 :=
  UInt64.ofNat f.span

/-- Half a period: the longest jump that is not taken for a rollover. -/
def half (f : CounterField) : UInt64 :=
  UInt64.ofNat (f.span / 2)

/-- The bits of the field, all set. -/
def mask (f : CounterField) : UInt64 :=
  UInt64.ofNat (f.span - 1)

/-- The low bits of a full-width value, as the device writes them down. -/
def truncate (f : CounterField) (full : UInt64) : UInt32 :=
  (full &&& f.mask).toUInt32

def text (f : CounterField) : String :=
  Text.Record.line
    { name := "TruncatedField"
      fields :=
        [("width", toString f.width), ("period", toString f.period), ("half", toString f.half),
          ("mask", toString f.mask)] }

/-! ## The field as numbers -/

theorem span_pos (f : CounterField) : 0 < f.span :=
  Nat.two_pow_pos _

theorem span_le (f : CounterField) : f.span ≤ 4294967296 :=
  show 2 ^ f.width ≤ 2 ^ 32 from Nat.pow_le_pow_right (by decide) f.width_le

theorem span_eq_two_mul_half (f : CounterField) : f.span = 2 * (f.span / 2) := by
  obtain ⟨w, hw⟩ : ∃ w, f.width = w + 1 := ⟨f.width - 1, by have := f.width_pos; omega⟩
  have h : f.span = 2 ^ w * 2 := by rw [span, hw]; rfl
  omega

theorem toNat_ofNat_of_le_span (f : CounterField) {n : Nat} (h : n ≤ f.span) :
    (UInt64.ofNat n).toNat = n := by
  rw [UInt64.toNat_ofNat']
  exact Nat.mod_eq_of_lt (Nat.lt_of_le_of_lt h (Nat.lt_of_le_of_lt f.span_le (by decide)))

@[simp] theorem toNat_period (f : CounterField) : f.period.toNat = f.span :=
  f.toNat_ofNat_of_le_span (Nat.le_refl _)

@[simp] theorem toNat_half (f : CounterField) : f.half.toNat = f.span / 2 :=
  f.toNat_ofNat_of_le_span (Nat.div_le_self _ _)

@[simp] theorem toNat_mask (f : CounterField) : f.mask.toNat = f.span - 1 :=
  f.toNat_ofNat_of_le_span (Nat.sub_le _ _)

/-- The low bits of a value are its remainder by the period. -/
theorem toNat_and_mask (f : CounterField) (full : UInt64) :
    (full &&& f.mask).toNat = full.toNat % f.span := by
  rw [UInt64.toNat_and, toNat_mask]
  exact Nat.and_two_pow_sub_one_eq_mod _ _

theorem toNat_truncate (f : CounterField) (full : UInt64) :
    (f.truncate full).toNat = full.toNat % f.span := by
  have := f.span_le
  have := Nat.mod_lt full.toNat f.span_pos
  rw [truncate, UInt64.toNat_toUInt32, toNat_and_mask]
  omega

end CounterField

end TimestampRelay
