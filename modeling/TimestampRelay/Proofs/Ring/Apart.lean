/-
The parties of a ring in use stay apart: the slot that the producer writes next holds no published item
and none that the consumer is reading, and nothing else ever changes a slot.
-/
import TimestampRelay.Proofs.Ring.Traffic

namespace TimestampRelay

variable {α : Type} {r : Ring α} {k : Cursors}

/-! ## Slots in use -/

/-- The slots of so many cursors from one on. -/
def Ring.slotsFrom (r : Ring α) (cursor : UInt64) (count : Nat) : List (Fin r.capacity.slots) :=
  (List.range count).map fun i => r.capacity.slot (cursor + UInt64.ofNat i)

/-- The slots of the items that are published and not taken back. -/
def Ring.occupied (r : Ring α) : List (Fin r.capacity.slots) :=
  r.slotsFrom r.read (r.write - r.read).toNat

/-- The slot that the producer's next access writes, if it writes one. -/
def Producing.target? (r : Ring α) : Producing α → Option (Fin r.capacity.slots)
  | .write _ (_ :: _) written => some (r.capacity.slot (r.producer.write + UInt64.ofNat written.length))
  | .touch _ touched => some (r.capacity.slot (r.producer.write + UInt64.ofNat touched))
  | _ => none

/-- The slots that the consumer is in the middle of reading, or has read without saying so yet. -/
def Consuming.window (r : Ring α) : Consuming α → List (Fin r.capacity.slots)
  | .read _ left got => r.slotsFrom r.consumer.read (got.length + left)
  | .publish _ got => r.slotsFrom r.read got.length
  | _ => []

/-- A cursor behind some others and less than a capacity from the first of them has a slot of its own. -/
theorem Ring.not_mem_slotsFrom (r : Ring α) {a count n : Nat} (hle : a + count ≤ n)
    (hlt : n < a + r.capacity.slots) : r.capacity.slot (.ofNat n) ∉ r.slotsFrom (.ofNat a) count := by
  intro hmem
  obtain ⟨i, hi, heq⟩ := List.mem_map.1 hmem
  rw [List.mem_range] at hi
  rw [← UInt64.ofNat_add] at heq
  exact r.capacity.slot_ofNat_ne (m := a + i) (n := n) (by omega) (by omega) heq

/-- The producer writes into the free region. -/
theorem Producing.Sound.target {p : Producing α} (h : p.Sound r k) (hr : r.Stands k)
    {slot : Fin r.capacity.slots} (hslot : p.target? r = some slot) :
    ∃ n, slot = r.capacity.slot (.ofNat n) ∧ k.ownWrite ≤ n ∧ n < k.cachedRead + r.capacity.slots := by
  cases p with
  | rest answer | look call | publish call written => cases hslot
  | touch left touched =>
    obtain ⟨hown, hleft, hroom⟩ := h
    refine ⟨k.ownWrite + touched, ?_, by omega, by omega⟩
    rw [← Option.some.inj hslot, hr.ownWrite, UInt64.ofNat_add]
  | write call left written =>
    cases left with
    | nil => cases hslot
    | cons x left =>
      obtain ⟨hown, -, hroom, -⟩ := h
      rw [List.length_cons] at hroom
      refine ⟨k.ownWrite + written.length, ?_, by omega, by omega⟩
      rw [← Option.some.inj hslot, hr.ownWrite, UInt64.ofNat_add]

/-- The consumer reads published items that it has not handed back. -/
theorem Consuming.Sound.window {c : Consuming α} (h : c.Sound r k) (hr : r.Stands k) :
    ∃ count, c.window r = r.slotsFrom (.ofNat k.read) count ∧ k.read + count ≤ k.write := by
  have := hr.ordered
  cases c with
  | rest answer | look call => exact ⟨0, rfl, by omega⟩
  | read call left got =>
    obtain ⟨hown, -, hseen, -⟩ := h
    refine ⟨got.length + left, ?_, by omega⟩
    rw [← hown, ← hr.ownRead]
    rfl
  | publish call got =>
    refine ⟨got.length, ?_, by rw [← h.1]; omega⟩
    rw [← hr.read]
    rfl

namespace Traffic

variable {origin : Nat} {t : Traffic α}

/-- A slot that the producer writes is neither occupied nor being read. -/
theorem Sound.target_apart (h : t.Sound origin k) {slot : Fin t.ring.capacity.slots}
    (hslot : t.producing.target? t.ring = some slot) :
    slot ∉ t.ring.occupied ∧ slot ∉ t.consuming.window t.ring := by
  have := h.stands.ordered
  obtain ⟨n, rfl, hahead, hroom⟩ := h.producing.target h.stands hslot
  obtain ⟨count, hwindow, hcount⟩ := h.consuming.window h.stands
  constructor
  · rw [Ring.occupied, h.stands.toNat_write_sub_read, h.stands.read]
    exact t.ring.not_mem_slotsFrom (by omega) (by omega)
  · rw [hwindow]
    exact t.ring.not_mem_slotsFrom (by omega) (by omega)

theorem item_writeSlot (r : Ring α) (ahead : Nat) (x : α) {cursor : UInt64}
    (hne : r.capacity.slot (r.producer.write + UInt64.ofNat ahead) ≠ r.capacity.slot cursor) :
    (Producing.writeSlot r ahead x).item cursor = r.item cursor :=
  Vector.getElem_set_ne (r.capacity.slot (r.producer.write + UInt64.ofNat ahead)).isLt
    (r.capacity.slot cursor).isLt fun h => hne (Fin.ext h)

/-- An access of the producer changes no slot but its target. -/
theorem item_produce [Inhabited α] {cursor : UInt64}
    (hne : t.producing.target? t.ring ≠ some (t.ring.capacity.slot cursor)) :
    t.produce.ring.item cursor = t.ring.item cursor := by
  cases hp : t.producing with
  | rest answer => rw [produce_of_rest hp]
  | look call => rw [produce_of_look hp]; rfl
  | publish call written => rw [produce_of_publish hp]; rfl
  | touch left touched =>
    rw [hp] at hne
    rw [produce_of_touch hp]
    exact item_writeSlot t.ring touched default fun h => hne (congrArg some h)
  | write call left written =>
    rw [hp] at hne
    match left with
    | [] =>
      cases t; subst hp; rfl
    | [x] =>
      rw [produce_of_write_last hp]
      exact item_writeSlot t.ring written.length x fun h => hne (congrArg some h)
    | x :: y :: left =>
      rw [produce_of_write_more hp]
      exact item_writeSlot t.ring written.length x fun h => hne (congrArg some h)

/-- An access of the consumer changes no slot. -/
theorem item_consume (t : Traffic α) (cursor : UInt64) : t.consume.ring.item cursor = t.ring.item cursor := by
  cases hc : t.consuming with
  | rest answer => rw [consume_of_rest hc]
  | look call => rw [consume_of_look hc]; rfl
  | publish call got => rw [consume_of_publish hc]; rfl
  | read call left got =>
    by_cases hlast : left ≤ 1
    · rw [consume_of_read_last hc hlast]; rfl
    · rw [consume_of_read_more hc hlast]

/-- Only accesses of the producer change slots, and only their targets. -/
theorem item_apply [Inhabited α] (t : Traffic α) (move : Move α) (cursor : UInt64)
    (hne : move = .produce → t.producing.target? t.ring ≠ some (t.ring.capacity.slot cursor)) :
    (t.apply move).ring.item cursor = t.ring.item cursor := by
  cases move with
  | produce => exact item_produce (hne rfl)
  | consume => exact item_consume t cursor
  | glance => rfl
  | callProducer call => simp only [apply]; split <;> rfl
  | callConsumer call => simp only [apply]; split <;> rfl

end Traffic

end TimestampRelay
