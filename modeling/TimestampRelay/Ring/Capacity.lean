/-
Ring capacities: the powers of two that fit a 64-bit word. Cursors count items modulo 2^64, and a
capacity maps each cursor to the slot that it stands at.
-/
import TimestampRelay.Fault

namespace TimestampRelay

/-- A capacity, by the exponent of the power of two. -/
structure Capacity where
  exponent : Nat
  exponent_lt : exponent < 64
  deriving DecidableEq

namespace Capacity

/-- A word that is not zero and shares no set bit with its predecessor is a power of two. -/
def isPowerOfTwo (word : UInt64) : Bool :=
  word != 0 && word &&& (word - 1) == 0

theorem log2_toNat_lt (word : UInt64) : word.toNat.log2 < 64 := by
  by_cases h : word.toNat = 0
  · rw [h]
    decide
  · exact (Nat.log2_lt h).2 word.toNat_lt

/-- The capacity of the given number of slots, if that is a power of two. -/
def ofWord? (word : UInt64) : Except Fault Capacity :=
  if isPowerOfTwo word then .ok ⟨word.toNat.log2, log2_toNat_lt word⟩
  else .error (.invalidCapacity word)

/-- The number of slots. -/
def slots (c : Capacity) : Nat :=
  Nat.pow 2 c.exponent

/-- The number of slots as a word. -/
def word (c : Capacity) : UInt64 :=
  UInt64.ofNat c.slots

/-- The bits of a cursor that name a slot. -/
def mask (c : Capacity) : UInt64 :=
  c.word - 1

theorem slots_pos (c : Capacity) : 0 < c.slots :=
  Nat.two_pow_pos _

theorem slots_lt (c : Capacity) : c.slots < UInt64.size :=
  show 2 ^ c.exponent < 2 ^ 64 from Nat.pow_lt_pow_right (by decide) c.exponent_lt

@[simp] theorem toNat_word (c : Capacity) : c.word.toNat = c.slots := by
  rw [word, UInt64.toNat_ofNat']
  exact Nat.mod_eq_of_lt c.slots_lt

theorem toNat_mask (c : Capacity) : c.mask.toNat = c.slots - 1 := by
  have h : (1 : UInt64) ≤ c.word := by
    rw [UInt64.le_iff_toNat_le, toNat_word]
    exact c.slots_pos
  rw [mask, UInt64.toNat_sub_of_le _ _ h, toNat_word]
  rfl

theorem toNat_and_mask (c : Capacity) (cursor : UInt64) :
    (cursor &&& c.mask).toNat = cursor.toNat % c.slots := by
  rw [UInt64.toNat_and, toNat_mask]
  exact Nat.and_two_pow_sub_one_eq_mod _ _

/-- The slot that a cursor stands at. -/
def slot (c : Capacity) (cursor : UInt64) : Fin c.slots :=
  ⟨(cursor &&& c.mask).toNat, by rw [toNat_and_mask]; exact Nat.mod_lt _ c.slots_pos⟩

@[simp] theorem val_slot (c : Capacity) (cursor : UInt64) :
    (c.slot cursor).val = cursor.toNat % c.slots :=
  c.toNat_and_mask cursor

end Capacity

end TimestampRelay
