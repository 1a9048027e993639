/-
The cursors of a ring as they would stand if they never wrapped. The stored cursors are their residues
modulo 2^64, and they stand in a chain: what the producer saw of the read cursor, the read cursor, what
the consumer saw of the write cursor, the write cursor, and all of them within one capacity. So
differences of stored cursors are true distances, and cursors less than a capacity apart stand at
different slots.
-/
import TimestampRelay.Ring.Basic
import Mathlib.Tactic

namespace TimestampRelay

/-! ## Residues and slots -/

/-- The difference of two residues is the true distance, as long as that fits a word. -/
theorem toNat_ofNat_sub_ofNat {a b : Nat} (hle : b ≤ a) (hlt : a - b < UInt64.size) :
    (UInt64.ofNat a - UInt64.ofNat b).toNat = a - b := by
  have hsize : UInt64.size = 18446744073709551616 := rfl
  rw [UInt64.toNat_sub, UInt64.toNat_ofNat', UInt64.toNat_ofNat']
  omega

theorem ofNat_sub_ofNat_eq_iff {a b : Nat} {word : UInt64} (hle : b ≤ a) (hlt : a - b < UInt64.size) :
    UInt64.ofNat a - UInt64.ofNat b = word ↔ a - b = word.toNat := by
  rw [← UInt64.toNat_inj, toNat_ofNat_sub_ofNat hle hlt]

theorem ofNat_eq_ofNat_iff {a b : Nat} (hle : b ≤ a) (hlt : a - b < UInt64.size) :
    UInt64.ofNat b = UInt64.ofNat a ↔ b = a := by
  constructor
  · intro h
    have hsub := toNat_ofNat_sub_ofNat hle hlt
    rw [h, UInt64.sub_self] at hsub
    have hzero : a - b = 0 := hsub.symm
    omega
  · rintro rfl; rfl

namespace Capacity

theorem val_slot_ofNat (c : Capacity) (n : Nat) : (c.slot (.ofNat n)).val = n % c.slots := by
  rw [val_slot, UInt64.toNat_ofNat']
  exact Nat.mod_mod_of_dvd n (Nat.pow_dvd_pow 2 (Nat.le_of_lt c.exponent_lt))

/-- Cursors less than a capacity apart stand at different slots. -/
theorem slot_ofNat_ne (c : Capacity) {m n : Nat} (hlt : m < n) (hnear : n < m + c.slots) :
    c.slot (.ofNat m) ≠ c.slot (.ofNat n) := by
  intro h
  have hmod : m % c.slots = n % c.slots := by
    rw [← c.val_slot_ofNat m, ← c.val_slot_ofNat n, h]
  -- Cursors at one slot are a multiple of the capacity apart.
  have hdvd : c.slots ∣ n - m := (Nat.modEq_iff_dvd' (Nat.le_of_lt hlt)).1 hmod
  have := Nat.le_of_dvd (by omega) hdvd
  omega

end Capacity

/-! ## The chain of cursors -/

/-- The six cursors, counted on without end: what the producer last saw of the read cursor, the read
cursor as published and as the consumer has it, what the consumer last saw of the write cursor, and
the write cursor as published and as the producer has it. -/
structure Cursors where
  cachedRead : Nat
  read : Nat
  ownRead : Nat
  cachedWrite : Nat
  write : Nat
  ownWrite : Nat

namespace Ring

variable {α : Type}

/-- A ring whose stored cursors are the residues of cursors that stand in a chain. -/
structure Stands (r : Ring α) (k : Cursors) : Prop where
  read : r.read = .ofNat k.read
  write : r.write = .ofNat k.write
  ownRead : r.consumer.read = .ofNat k.ownRead
  ownWrite : r.producer.write = .ofNat k.ownWrite
  cachedRead : r.producer.cachedRead = .ofNat k.cachedRead
  cachedWrite : r.consumer.cachedWrite = .ofNat k.cachedWrite
  cachedRead_le : k.cachedRead ≤ k.read
  read_le : k.read ≤ k.ownRead
  ownRead_le : k.ownRead ≤ k.cachedWrite
  cachedWrite_le : k.cachedWrite ≤ k.write
  write_le : k.write ≤ k.ownWrite
  ownWrite_le : k.ownWrite ≤ k.cachedRead + r.capacity.slots

theorem startingAt_stands [Inhabited α] (c : Capacity) (start : UInt64) :
    (startingAt c start : Ring α).Stands
      ⟨start.toNat, start.toNat, start.toNat, start.toNat, start.toNat, start.toNat⟩ := by
  constructor <;> simp [startingAt]

variable {r : Ring α} {k : Cursors}

namespace Stands

/-- The whole chain, for arithmetic. -/
theorem ordered (h : r.Stands k) :
    k.cachedRead ≤ k.read ∧ k.read ≤ k.ownRead ∧ k.ownRead ≤ k.cachedWrite ∧ k.cachedWrite ≤ k.write ∧
      k.write ≤ k.ownWrite ∧ k.ownWrite ≤ k.cachedRead + r.capacity.slots :=
  ⟨h.cachedRead_le, h.read_le, h.ownRead_le, h.cachedWrite_le, h.write_le, h.ownWrite_le⟩

/-- Cursors of a chain are less than 2^64 apart. -/
theorem fits (h : r.Stands k) {a b : Nat} (ha : a ≤ k.ownWrite) (hb : k.cachedRead ≤ b) :
    a - b < UInt64.size := by
  have := r.capacity.slots_lt
  have := h.ownWrite_le
  omega

theorem freeSeen (h : r.Stands k) : r.freeSeen = r.capacity.slots - (k.ownWrite - k.cachedRead) := by
  have := h.ordered
  unfold Ring.freeSeen
  rw [h.ownWrite, h.cachedRead, toNat_ofNat_sub_ofNat (by omega) (h.fits le_rfl le_rfl)]

theorem looksFull_iff (h : r.Stands k) :
    r.producer.write - r.producer.cachedRead = r.capacity.word ↔
      k.ownWrite = k.cachedRead + r.capacity.slots := by
  have := h.ordered
  rw [h.ownWrite, h.cachedRead, ofNat_sub_ofNat_eq_iff (by omega) (h.fits le_rfl le_rfl),
    Capacity.toNat_word]
  omega

theorem availableSeen (h : r.Stands k) : r.availableSeen = k.cachedWrite - k.ownRead := by
  have := h.ordered
  unfold Ring.availableSeen
  rw [h.ownRead, h.cachedWrite, toNat_ofNat_sub_ofNat h.ownRead_le (h.fits (by omega) (by omega))]

theorem looksEmpty_iff (h : r.Stands k) :
    r.consumer.read = r.consumer.cachedWrite ↔ k.ownRead = k.cachedWrite := by
  have := h.ordered
  rw [h.ownRead, h.cachedWrite, ofNat_eq_ofNat_iff h.ownRead_le (h.fits (by omega) (by omega))]

/-- The published distance is the true number of published items. -/
theorem toNat_write_sub_read (h : r.Stands k) : (r.write - r.read).toNat = k.write - k.read := by
  have := h.ordered
  rw [h.write, h.read, toNat_ofNat_sub_ofNat (by omega) (h.fits h.write_le h.cachedRead_le)]

theorem len (h : r.Stands k) : r.len = k.write - k.read := by
  have := h.ordered
  unfold Ring.len
  rw [h.toNat_write_sub_read]
  omega

/-- A look of the producer at the read cursor. -/
theorem lookAtRead (h : r.Stands k) : r.lookAtRead.Stands { k with cachedRead := k.read } := by
  have hle : k.ownWrite ≤ k.read + r.capacity.slots := by
    have := h.ordered
    omega
  exact { h with cachedRead := h.read, cachedRead_le := le_rfl, ownWrite_le := hle }

/-- A look of the consumer at the write cursor. -/
theorem lookAtWrite (h : r.Stands k) : r.lookAtWrite.Stands { k with cachedWrite := k.write } := by
  have hle : k.ownRead ≤ k.write := by
    have := h.ordered
    omega
  exact { h with cachedWrite := h.write, cachedWrite_le := le_rfl, ownRead_le := hle }

end Stands

/-! ## Items by the count of their cursor -/

/-- The item in the slot that the `n`-th cursor stands at. -/
def itemAt (r : Ring α) (n : Nat) : α :=
  r.item (.ofNat n)

/-- The items from one cursor up to another. -/
def between (r : Ring α) (a b : Nat) : List α :=
  (List.range' a (b - a)).map r.itemAt

@[simp] theorem length_between (r : Ring α) (a b : Nat) : (r.between a b).length = b - a := by
  simp [between]

@[simp] theorem between_self (r : Ring α) (a : Nat) : r.between a a = [] := by
  simp [between]

theorem between_append (r : Ring α) {a b c : Nat} (hab : a ≤ b) (hbc : b ≤ c) :
    r.between a b ++ r.between b c = r.between a c := by
  obtain ⟨m, rfl⟩ := Nat.exists_eq_add_of_le hab
  obtain ⟨n, rfl⟩ := Nat.exists_eq_add_of_le hbc
  have hm : a + m - a = m := by omega
  have hn : a + m + n - (a + m) = n := by omega
  have hmn : a + m + n - a = m + n := by omega
  simp only [between, hm, hn, hmn, ← List.map_append, List.range'_append_1]

theorem between_succ (r : Ring α) {a b : Nat} (hab : a ≤ b) :
    r.between a (b + 1) = r.between a b ++ [r.itemAt b] := by
  rw [← r.between_append hab (Nat.le_succ b)]
  simp [between]

theorem between_congr {s : Ring α} {a b : Nat} (h : ∀ n, a ≤ n → n < b → r.itemAt n = s.itemAt n) :
    r.between a b = s.between a b := by
  refine List.map_congr_left fun n hn => ?_
  have := List.mem_range'_1.1 hn
  exact h n (by omega) (by omega)

theorem take_between (r : Ring α) {a n c : Nat} (h : a + n ≤ c) :
    (r.between a c).take n = r.between a (a + n) := by
  have hlen : (r.between a (a + n)).length = n := by simp
  rw [← r.between_append (Nat.le_add_right a n) h, List.take_left' hlen]

theorem drop_between (r : Ring α) {a n c : Nat} (h : a + n ≤ c) :
    (r.between a c).drop n = r.between (a + n) c := by
  have hlen : (r.between a (a + n)).length = n := by simp
  rw [← r.between_append (Nat.le_add_right a n) h, List.drop_left' hlen]

theorem itemsFrom_ofNat (r : Ring α) (a count : Nat) :
    r.itemsFrom (.ofNat a) count = r.between a (a + count) := by
  simp only [itemsFrom, between, Nat.add_sub_cancel_left, ← UInt64.ofNat_add]
  rw [List.range'_eq_map_range, List.map_map]
  rfl

theorem Stands.toList (h : r.Stands k) : r.toList = r.between k.read k.write := by
  have hle : k.read ≤ k.write := by
    have := h.ordered
    omega
  rw [Ring.toList, h.toNat_write_sub_read, h.read, itemsFrom_ofNat, Nat.add_sub_cancel' hle]

theorem Stands.length_toList (h : r.Stands k) : r.toList.length = k.write - k.read := by
  rw [h.toList, length_between]

end Ring

end TimestampRelay
