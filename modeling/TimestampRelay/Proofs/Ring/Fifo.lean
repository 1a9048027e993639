/-
A ring between operations is a queue: a push appends as many items as there is room for, a pop takes
items from the front, and neither depends on what the parties remember of each other's cursors.
-/
import TimestampRelay.Proofs.Ring.Cursors

namespace TimestampRelay.Ring

variable {α : Type} {r : Ring α} {k : Cursors}

/-! ## Writing slots -/

/-- The ring with an item put into the slot of its `n`-th cursor. -/
def put (r : Ring α) (n : Nat) (x : α) : Ring α :=
  { r with slots := r.slots.set (r.capacity.slot (.ofNat n)) x }

/-- Items put into the slots from the `n`-th cursor on. -/
def putAll (r : Ring α) (n : Nat) : List α → Ring α
  | [] => r
  | x :: xs => (r.put n x).putAll (n + 1) xs

@[simp] theorem itemAt_put_self (r : Ring α) (n : Nat) (x : α) : (r.put n x).itemAt n = x :=
  Vector.getElem_set_self _

/-- An item put elsewhere within one capacity changes nothing. -/
theorem itemAt_put_of_ne (r : Ring α) {m n : Nat} (x : α) (hne : m ≠ n) (hbelow : n < m + r.capacity.slots)
    (habove : m < n + r.capacity.slots) : (r.put n x).itemAt m = r.itemAt m := by
  have hslot : r.capacity.slot (.ofNat n) ≠ r.capacity.slot (.ofNat m) := by
    rcases Nat.lt_or_gt_of_ne hne with h | h
    · exact (r.capacity.slot_ofNat_ne h hbelow).symm
    · exact r.capacity.slot_ofNat_ne h habove
  exact Vector.getElem_set_ne (r.capacity.slot (.ofNat n)).isLt (r.capacity.slot (.ofNat m)).isLt
    fun h => hslot (Fin.ext h)

theorem fill_eq_putAll (r : Ring α) (n : Nat) (items : List α) :
    { r with slots := fill r.slots (.ofNat n) items } = r.putAll n items := by
  induction items generalizing r n with
  | nil => rfl
  | cons x xs ih =>
    show { r with slots := fill (r.slots.set (r.capacity.slot (.ofNat n)) x) (.ofNat n + 1) xs } =
      (r.put n x).putAll (n + 1) xs
    rw [← ih (r.put n x) (n + 1), UInt64.ofNat_add]
    rfl

/-- Writing ahead of a cursor leaves the items behind it alone, as long as it does not come round. -/
theorem itemAt_putAll_of_lt (r : Ring α) {m n : Nat} (items : List α) (hlt : m < n)
    (hroom : n + items.length ≤ m + r.capacity.slots) : (r.putAll n items).itemAt m = r.itemAt m := by
  induction items generalizing r n with
  | nil => rfl
  | cons x xs ih =>
    rw [List.length_cons] at hroom
    rw [putAll, ih (r.put n x) (by omega) (by show _ ≤ m + r.capacity.slots; omega),
      itemAt_put_of_ne r x (by omega) (by omega) (by omega)]

/-- The items written are the items found. -/
theorem between_putAll (r : Ring α) (n : Nat) (items : List α) (hroom : items.length ≤ r.capacity.slots) :
    (r.putAll n items).between n (n + items.length) = items := by
  induction items generalizing r n with
  | nil => simp
  | cons x xs ih =>
    rw [List.length_cons] at hroom ⊢
    have hhead : ((r.put n x).putAll (n + 1) xs).itemAt n = x := by
      rw [itemAt_putAll_of_lt (r.put n x) xs (by omega) (by show _ ≤ n + r.capacity.slots; omega),
        itemAt_put_self]
    have htail : ((r.put n x).putAll (n + 1) xs).between (n + 1) (n + 1 + xs.length) = xs :=
      ih (r.put n x) (n + 1) (by show _ ≤ r.capacity.slots; omega)
    rw [putAll, ← between_append _ (Nat.le_succ n) (by omega), between_succ _ le_rfl, hhead,
      Nat.add_comm xs.length 1, ← Nat.add_assoc, htail]
    simp

theorem between_putAll_of_le (r : Ring α) {a b n : Nat} (items : List α) (hle : b ≤ n)
    (hroom : n + items.length ≤ a + r.capacity.slots) :
    (r.putAll n items).between a b = r.between a b :=
  between_congr fun m ha hb => itemAt_putAll_of_lt r items (by omega) (by omega)

/-! ## Rings between operations -/

/-- A ring in which neither party is in the middle of something: what they did is published. -/
structure Settled (r : Ring α) (k : Cursors) : Prop extends r.Stands k where
  ownRead_eq : k.ownRead = k.read
  ownWrite_eq : k.ownWrite = k.write

/-- A ring between operations. -/
def AtRest (r : Ring α) : Prop :=
  ∃ k, r.Settled k

theorem startingAt_atRest [Inhabited α] (c : Capacity) (start : UInt64) :
    (startingAt c start : Ring α).AtRest :=
  ⟨_, startingAt_stands c start, rfl, rfl⟩

theorem toList_startingAt [Inhabited α] (c : Capacity) (start : UInt64) :
    (startingAt c start : Ring α).toList = [] := by
  rw [(startingAt_stands c start).toList, between_self]

theorem Settled.length_toList_le (h : r.Settled k) : r.toList.length ≤ r.capacity.slots := by
  have := h.ordered
  rw [h.length_toList]
  omega

theorem AtRest.length_toList_le (h : r.AtRest) : r.toList.length ≤ r.capacity.slots :=
  h.elim fun _ hk => hk.length_toList_le

/-- What anyone reads as the ring's length is the number of its items. -/
theorem AtRest.len_eq (h : r.AtRest) : r.len = r.toList.length := by
  obtain ⟨k, hk⟩ := h
  rw [hk.len, hk.length_toList]

theorem Settled.lookAtRead (h : r.Settled k) : r.lookAtRead.Settled { k with cachedRead := k.read } :=
  ⟨h.toStands.lookAtRead, h.ownRead_eq, h.ownWrite_eq⟩

theorem Settled.lookAtWrite (h : r.Settled k) : r.lookAtWrite.Settled { k with cachedWrite := k.write } :=
  ⟨h.toStands.lookAtWrite, h.ownRead_eq, h.ownWrite_eq⟩

/-! ## Pushing -/

/-- Room in the ring. -/
def room (r : Ring α) : Nat :=
  r.capacity.slots - r.toList.length

theorem publish_eq (r : Ring α) (items : List α) (h : r.producer.write = .ofNat k.ownWrite) :
    r.publish items = { r.putAll k.ownWrite items with
      write := .ofNat (k.ownWrite + items.length)
      producer := { r.producer with write := .ofNat (k.ownWrite + items.length) } } := by
  unfold publish
  rw [← fill_eq_putAll, UInt64.ofNat_add, h]

theorem Stands.publish (h : r.Stands k) (items : List α)
    (hroom : k.ownWrite + items.length ≤ k.cachedRead + r.capacity.slots) :
    (r.publish items).Stands
      { k with write := k.ownWrite + items.length, ownWrite := k.ownWrite + items.length } := by
  have := h.ordered
  rw [publish_eq r items h.ownWrite, ← fill_eq_putAll]
  exact
    { h with
      write := rfl
      ownWrite := rfl
      cachedWrite_le := by show k.cachedWrite ≤ k.ownWrite + items.length; omega
      write_le := le_rfl
      ownWrite_le := hroom }

theorem Settled.publish (h : r.Settled k) (items : List α)
    (hroom : k.ownWrite + items.length ≤ k.cachedRead + r.capacity.slots) :
    (r.publish items).Settled
      { k with write := k.ownWrite + items.length, ownWrite := k.ownWrite + items.length } ∧
      (r.publish items).toList = r.toList ++ items := by
  have := h.ordered
  have hown := h.ownWrite_eq
  have hset : (r.publish items).Settled
      { k with write := k.ownWrite + items.length, ownWrite := k.ownWrite + items.length } :=
    ⟨h.toStands.publish items hroom, h.ownRead_eq, rfl⟩
  refine ⟨hset, ?_⟩
  -- The new items end before they come round to the oldest published one.
  have hkeep : (r.publish items).between k.read k.ownWrite = r.between k.read k.write := by
    rw [publish_eq r items h.ownWrite, ← hown]
    exact between_putAll_of_le r items le_rfl (by omega)
  have hnew : (r.publish items).between k.ownWrite (k.ownWrite + items.length) = items := by
    rw [publish_eq r items h.ownWrite]
    exact between_putAll r k.ownWrite items (by omega)
  rw [hset.toList, h.toList]
  show (r.publish items).between k.read (k.ownWrite + items.length) = _
  rw [← between_append _ (show k.read ≤ k.ownWrite by omega) (Nat.le_add_right _ _), hkeep, hnew]

/-- Whether the producer looks or not, it takes the room there is for as much as it asks for. -/
theorem Settled.seesRoom (h : r.Settled k) (n : Nat) :
    let s := if r.freeSeen < n then r.lookAtRead else r
    ∃ k', s.Settled k' ∧ s.toList = r.toList ∧ s.capacity = r.capacity ∧
      min n s.freeSeen = min n r.room := by
  have := h.ordered
  have hown := h.ownWrite_eq
  have hroom : r.room = r.capacity.slots - (k.write - k.read) := by rw [room, h.length_toList]
  have hseen := h.freeSeen
  intro s
  by_cases hlt : r.freeSeen < n
  · have hs : s = r.lookAtRead := if_pos hlt
    rw [hs]
    refine ⟨_, h.lookAtRead, rfl, rfl, ?_⟩
    rw [h.lookAtRead.freeSeen, hroom]
    show min n (r.capacity.slots - (k.ownWrite - k.read)) = _
    rw [hown]
  · have hs : s = r := if_neg hlt
    rw [hs]
    refine ⟨k, h, rfl, rfl, ?_⟩
    omega

/-- A push of many appends as many as there is room for. -/
theorem AtRest.pushAll (h : r.AtRest) (items : List α) :
    (r.pushAll items).1 = min items.length r.room ∧ (r.pushAll items).2.AtRest ∧
      (r.pushAll items).2.toList = r.toList ++ items.take r.room ∧
      (r.pushAll items).2.capacity = r.capacity := by
  obtain ⟨k, hk⟩ := h
  unfold Ring.pushAll
  by_cases hn : items.length = 0
  · rw [List.length_eq_zero_iff] at hn
    subst hn
    simp only [List.length_nil, if_true, Nat.zero_min, List.take_nil, List.append_nil, true_and, and_true]
    exact ⟨k, hk⟩
  · obtain ⟨k', hk', hlist, hcap, hmin⟩ := hk.seesRoom items.length
    simp only [if_neg hn, hmin]
    generalize (if r.freeSeen < items.length then r.lookAtRead else r) = s at hk' hlist hcap hmin ⊢
    have hfree := hk'.freeSeen
    split
    · -- The producer sees no room, and there is none.
      rename_i hzero
      have hroom : r.room = 0 := by omega
      rw [hroom, List.take_zero, List.append_nil]
      exact ⟨by omega, ⟨k', hk'⟩, hlist, hcap⟩
    · have hlen : (items.take (min items.length r.room)).length = min items.length r.room := by
        rw [List.length_take]
        omega
      have := hk'.ordered
      obtain ⟨hset, hitems⟩ := hk'.publish (items.take (min items.length r.room)) (by omega)
      refine ⟨rfl, ⟨_, hset⟩, ?_, hcap⟩
      rw [hitems, hlist, List.append_cancel_left_eq, List.take_eq_take_iff]
      omega

/-- What is pushed goes behind what the ring holds. -/
theorem AtRest.toList_pushAll (h : r.AtRest) (items : List α) :
    (r.pushAll items).2.toList = r.toList ++ items.take (r.pushAll items).1 := by
  obtain ⟨hn, -, hlist, -⟩ := h.pushAll items
  rw [hlist, hn, Nat.min_comm, ← List.take_eq_take_min]

/-! ## Popping -/

/-- Whether the consumer looks or not, it sees as many items as there are, up to what it asks for. -/
theorem Settled.seesItems (h : r.Settled k) (n : Nat) :
    let s := if r.availableSeen < n then r.lookAtWrite else r
    ∃ k', s.Settled k' ∧ s.toList = r.toList ∧ s.capacity = r.capacity ∧
      min n s.availableSeen = min n r.toList.length := by
  have := h.ordered
  have hown := h.ownRead_eq
  have hlen := h.length_toList
  have hseen := h.availableSeen
  intro s
  by_cases hlt : r.availableSeen < n
  · have hs : s = r.lookAtWrite := if_pos hlt
    rw [hs]
    refine ⟨_, h.lookAtWrite, rfl, rfl, ?_⟩
    rw [h.lookAtWrite.availableSeen, hlen]
    show min n (k.write - k.ownRead) = _
    rw [hown]
  · have hs : s = r := if_neg hlt
    rw [hs]
    refine ⟨k, h, rfl, rfl, ?_⟩
    omega

theorem Stands.release (h : r.Stands k) (count : Nat) (hle : k.ownRead + count ≤ k.cachedWrite) :
    (r.release count).Stands { k with read := k.ownRead + count, ownRead := k.ownRead + count } := by
  have := h.ordered
  have hnext : r.consumer.read + UInt64.ofNat count = .ofNat (k.ownRead + count) := by
    rw [h.ownRead, UInt64.ofNat_add]
  exact
    { h with
      read := hnext
      ownRead := hnext
      cachedRead_le := by show k.cachedRead ≤ k.ownRead + count; omega
      read_le := le_rfl
      ownRead_le := hle }

theorem Settled.release (h : r.Settled k) (count : Nat) (hle : k.ownRead + count ≤ k.cachedWrite) :
    (r.release count).Settled { k with read := k.ownRead + count, ownRead := k.ownRead + count } ∧
      (r.release count).toList = r.toList.drop count := by
  have := h.ordered
  have hown := h.ownRead_eq
  have hset : (r.release count).Settled { k with read := k.ownRead + count, ownRead := k.ownRead + count } :=
    ⟨h.toStands.release count hle, rfl, h.ownWrite_eq⟩
  refine ⟨hset, ?_⟩
  rw [hset.toList, h.toList]
  show r.between (k.ownRead + count) k.write = _
  rw [hown, drop_between r (by omega)]

/-- A pop of many takes as many from the front as are asked for, or as there are. -/
theorem AtRest.popUpTo (h : r.AtRest) (n : Nat) :
    (r.popUpTo n).1 = r.toList.take n ∧ (r.popUpTo n).2.AtRest ∧
      (r.popUpTo n).2.toList = r.toList.drop n ∧ (r.popUpTo n).2.capacity = r.capacity := by
  obtain ⟨k, hk⟩ := h
  unfold Ring.popUpTo
  by_cases hn : n = 0
  · subst hn
    simp only [if_true, List.take_zero, List.drop_zero, true_and, and_true]
    exact ⟨k, hk⟩
  · obtain ⟨k', hk', hlist, hcap, hmin⟩ := hk.seesItems n
    simp only [if_neg hn, hmin]
    generalize (if r.availableSeen < n then r.lookAtWrite else r) = s at hk' hlist hcap hmin ⊢
    have havail := hk'.availableSeen
    have := hk'.ordered
    split
    · -- The consumer sees no item, and there is none.
      rename_i hzero
      have hnil : r.toList = [] := List.length_eq_zero_iff.1 (by omega)
      rw [hnil] at hlist ⊢
      rw [List.take_nil, List.drop_nil]
      exact ⟨rfl, ⟨k', hk'⟩, hlist, hcap⟩
    · obtain ⟨hset, hitems⟩ := hk'.release (min n r.toList.length) (by omega)
      refine ⟨?_, ⟨_, hset⟩, ?_, hcap⟩
      · have hown := hk'.ownRead_eq
        rw [List.take_eq_take_min, ← hlist, hk'.toList, hk'.ownRead, itemsFrom_ofNat, hown, length_between,
          take_between s (by omega), ← hk'.length_toList, hlist]
      · rw [hitems, hlist, ← List.drop_eq_drop_min]

/-- No more items are popped than are asked for. -/
theorem length_popUpTo_le (r : Ring α) (n : Nat) : (r.popUpTo n).1.length ≤ n := by
  unfold Ring.popUpTo
  split
  · exact Nat.zero_le _
  · dsimp only
    generalize (if r.availableSeen < n then r.lookAtWrite else r) = seen
    split
    · exact Nat.zero_le _
    · simp [itemsFrom]

/-- What is popped and what is left are what the ring held. -/
theorem AtRest.popUpTo_append (h : r.AtRest) (n : Nat) : (r.popUpTo n).1 ++ (r.popUpTo n).2.toList = r.toList := by
  obtain ⟨htake, -, hdrop, -⟩ := h.popUpTo n
  rw [htake, hdrop, List.take_append_drop]

/-- What others pop joins what they took before. -/
theorem AtRest.toList_taken (h : r.AtRest) (n : Nat) (taken : Array α) :
    (taken.appendList (r.popUpTo n).1).toList ++ (r.popUpTo n).2.toList = taken.toList ++ r.toList := by
  have hmore : (taken.appendList (r.popUpTo n).1).toList = taken.toList ++ (r.popUpTo n).1 :=
    Array.toList_appendList
  rw [hmore, List.append_assoc, h.popUpTo_append]

theorem AtRest.available (h : r.AtRest) :
    r.available.1 = r.toList.length ∧ r.available.2.AtRest ∧ r.available.2.toList = r.toList ∧
      r.available.2.capacity = r.capacity := by
  obtain ⟨k, hk⟩ := h
  refine ⟨?_, ⟨_, hk.lookAtWrite⟩, rfl, rfl⟩
  show r.lookAtWrite.availableSeen = _
  rw [hk.lookAtWrite.availableSeen, hk.length_toList]
  show k.write - k.ownRead = _
  rw [hk.ownRead_eq]

theorem AtRest.exhausted (h : r.AtRest) :
    r.exhausted.1 = r.toList.isEmpty ∧ r.exhausted.2.AtRest ∧ r.exhausted.2.toList = r.toList ∧
      r.exhausted.2.capacity = r.capacity := by
  obtain ⟨hlen, hrest⟩ := h.available
  refine ⟨?_, hrest⟩
  show (r.available.1 == 0) = _
  rw [hlen]
  cases r.toList <;> rfl

/-! ## Touching the free slots -/

/-- Overwriting the free slots keeps the items. -/
theorem AtRest.prefault [Inhabited α] (h : r.AtRest) :
    r.prefault.AtRest ∧ r.prefault.toList = r.toList ∧ r.prefault.capacity = r.capacity := by
  obtain ⟨k, hk⟩ := h
  have hlook := hk.lookAtRead
  have hfree := hlook.freeSeen
  have := hlook.ordered
  -- What is written lies between the producer and the slot it would come round to.
  have heq : r.prefault =
      r.lookAtRead.putAll k.ownWrite (List.replicate r.lookAtRead.freeSeen default) := by
    rw [← fill_eq_putAll, ← hk.ownWrite]
    rfl
  have hset : r.prefault.Settled { k with cachedRead := k.read } := { hlook with }
  refine ⟨⟨_, hset⟩, ?_, rfl⟩
  rw [hset.toList, hk.toList, heq]
  refine between_putAll_of_le r.lookAtRead _ hk.write_le ?_
  rw [List.length_replicate, hfree]
  show k.ownWrite + (r.capacity.slots - (k.ownWrite - k.read)) ≤ k.read + r.capacity.slots
  have : k.ownWrite ≤ k.read + r.capacity.slots := hlook.ownWrite_le
  have := hk.ordered
  omega

end TimestampRelay.Ring
