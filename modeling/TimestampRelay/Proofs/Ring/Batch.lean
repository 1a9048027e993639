/-
A batch goes through a ring as its items would go one by one. A batch can be cut anywhere: its parts, handed over one
behind the other until one of them falls short, go as far as the whole and leave the same ring, down to every slot and
to what each party remembers of the other's cursor. For a party that looks at the other's cursor again finds the same as
long as the other does nothing, and a batch looks exactly if one of its items has to.
-/
import TimestampRelay.Proofs.Ring.Queue
import TimestampRelay.Proofs.Ring.Traffic

namespace TimestampRelay

namespace Ring

variable {α : Type} {r : Ring α} {k : Cursors}

/-! ## Publishing in parts -/

theorem fill_append {c : Capacity} (slots : Vector α c.slots) (cursor : UInt64) (xs ys : List α) :
    fill slots cursor (xs ++ ys) = fill (fill slots cursor xs) (cursor + .ofNat xs.length) ys := by
  induction xs generalizing slots cursor with
  | nil =>
    show fill slots cursor ys = fill slots (cursor + 0) ys
    rw [UInt64.add_zero]
  | cons x xs ih =>
    have hcursor : cursor + .ofNat (x :: xs).length = cursor + 1 + .ofNat xs.length := by
      rw [List.length_cons, UInt64.ofNat_add, UInt64.add_comm (.ofNat xs.length), ← UInt64.add_assoc]
      rfl
    rw [hcursor]
    exact ih _ _

theorem publish_append (r : Ring α) (xs ys : List α) : (r.publish xs).publish ys = r.publish (xs ++ ys) := by
  have hnext : r.producer.write + .ofNat xs.length + .ofNat ys.length =
      r.producer.write + .ofNat (xs ++ ys).length := by
    rw [List.length_append, UInt64.ofNat_add, UInt64.add_assoc]
  simp only [publish, fill_append, hnext]

/-- Publishes items, if there are any. -/
def publishSome (r : Ring α) (items : List α) : Ring α :=
  if items.isEmpty then r else r.publish items

theorem publishSome_append (r : Ring α) (xs ys : List α) :
    (r.publishSome xs).publishSome ys = r.publishSome (xs ++ ys) := by
  cases xs with
  | nil => rfl
  | cons x xs =>
    cases ys with
    | nil => rw [List.append_nil]; rfl
    | cons y ys => exact r.publish_append (x :: xs) (y :: ys)

theorem publishSome_lookAtRead (r : Ring α) (items : List α) :
    (r.publishSome items).lookAtRead = r.lookAtRead.publishSome items := by
  cases items <;> rfl

theorem Stands.publishSome (h : r.Stands k) (items : List α)
    (hroom : k.ownWrite + items.length ≤ k.cachedRead + r.capacity.slots) :
    ∃ k', (r.publishSome items).Stands k' ∧ k'.cachedRead = k.cachedRead ∧
      k'.ownWrite = k.ownWrite + items.length := by
  cases items with
  | nil => exact ⟨k, h, rfl, rfl⟩
  | cons x xs => exact ⟨_, h.publish (x :: xs) hroom, rfl, rfl⟩

/-! ## Pushing in parts -/

theorem Stands.freeSeen_le_look (h : r.Stands k) : r.freeSeen ≤ r.lookAtRead.freeSeen := by
  have := h.ordered
  rw [h.freeSeen, h.lookAtRead.freeSeen]
  show _ ≤ r.capacity.slots - (k.ownWrite - k.read)
  omega

theorem Stands.freeSeen_publishSome (h : r.Stands k) {items : List α} (hroom : items.length ≤ r.freeSeen) :
    (r.publishSome items).freeSeen = r.freeSeen - items.length := by
  have := h.ordered
  have hfree := h.freeSeen
  obtain ⟨k', hk', hread, hwrite⟩ := h.publishSome items (by omega)
  have hcapacity : (r.publishSome items).capacity = r.capacity := by cases items <;> rfl
  rw [hk'.freeSeen, hcapacity, hread, hwrite]
  omega

/-- A push that fits what the producer remembers goes in without a look. -/
theorem pushAll_of_le {items : List α} (hle : items.length ≤ r.freeSeen) :
    r.pushAll items = (items.length, r.publishSome items) := by
  cases items with
  | nil => rfl
  | cons x xs =>
    have hcount : min (x :: xs).length r.freeSeen = (x :: xs).length := Nat.min_eq_left hle
    simp only [pushAll, Nat.not_lt.2 hle, if_false, hcount, List.take_length]
    rfl

/-- A push that does not fit it goes as far as the look shows room. -/
theorem pushAll_of_lt {items : List α} (hlt : r.freeSeen < items.length) :
    r.pushAll items =
      (min items.length r.lookAtRead.freeSeen,
        r.lookAtRead.publishSome (items.take r.lookAtRead.freeSeen)) := by
  have hne : items.length ≠ 0 := Nat.ne_zero_of_lt hlt
  simp only [pushAll, hlt, hne, if_true, if_false]
  split
  · rename_i hzero
    have hfull : r.lookAtRead.freeSeen = 0 := by omega
    rw [hfull, Nat.min_zero, List.take_zero]
    rfl
  · rename_i hsome
    have htake : items.take (min items.length r.lookAtRead.freeSeen) = items.take r.lookAtRead.freeSeen := by
      rw [List.take_eq_take_iff]
      omega
    have hne : (items.take r.lookAtRead.freeSeen).isEmpty = false := by
      rw [← Bool.not_eq_true, List.isEmpty_iff, List.take_eq_nil_iff, ← List.length_eq_zero_iff]
      omega
    rw [htake, publishSome, hne]
    rfl

/-- Behind a look it makes no difference whether the producer looks once more. -/
theorem pushAll_of_fresh (hfresh : r.lookAtRead = r) (items : List α) :
    r.pushAll items = (min items.length r.freeSeen, r.publishSome (items.take r.freeSeen)) := by
  by_cases hle : items.length ≤ r.freeSeen
  · rw [pushAll_of_le hle, Nat.min_eq_left hle, List.take_of_length_le hle]
  · rw [pushAll_of_lt (Nat.not_le.1 hle), hfresh]

/-- What follows the first part of a push whose whole needs a look: the rest, as far as the look shows room. -/
theorem Stands.pushAll_rest (h : r.Stands k) {xs ys : List α} (hxs : xs.length ≤ r.lookAtRead.freeSeen)
    (hlt : r.freeSeen < xs.length + ys.length) :
    (r.pushAll xs).1 = xs.length ∧
      (r.pushAll xs).2.pushAll ys =
        (min ys.length (r.lookAtRead.freeSeen - xs.length),
          r.lookAtRead.publishSome (xs ++ ys.take (r.lookAtRead.freeSeen - xs.length))) := by
  have hlook : (r.lookAtRead.publishSome xs).freeSeen = r.lookAtRead.freeSeen - xs.length :=
    h.lookAtRead.freeSeen_publishSome hxs
  by_cases hle : xs.length ≤ r.freeSeen
  · -- The first part fits what the producer remembers, and the look comes with the second.
    have hmore : (r.publishSome xs).freeSeen < ys.length := by
      rw [h.freeSeen_publishSome hle]
      omega
    rw [pushAll_of_le hle, pushAll_of_lt hmore, publishSome_lookAtRead, hlook, publishSome_append]
    exact ⟨rfl, rfl⟩
  · -- The look comes with the first part.
    have hfresh : (r.lookAtRead.publishSome xs).lookAtRead = r.lookAtRead.publishSome xs :=
      publishSome_lookAtRead _ _
    rw [pushAll_of_lt (Nat.not_le.1 hle), List.take_of_length_le hxs, pushAll_of_fresh hfresh, hlook,
      publishSome_append, Nat.min_eq_left hxs]
    exact ⟨rfl, rfl⟩

/-- A push can be cut anywhere: its second part is pushed behind the first, if all of that went in. -/
theorem Stands.pushAll_append (h : r.Stands k) (xs ys : List α) :
    r.pushAll (xs ++ ys) =
      if (r.pushAll xs).1 = xs.length then
        (xs.length + ((r.pushAll xs).2.pushAll ys).1, ((r.pushAll xs).2.pushAll ys).2)
      else r.pushAll xs := by
  have hlen : (xs ++ ys).length = xs.length + ys.length := List.length_append
  by_cases hle : xs.length + ys.length ≤ r.freeSeen
  · -- No part needs a look.
    have hxs : xs.length ≤ r.freeSeen := by omega
    have hys : ys.length ≤ (r.publishSome xs).freeSeen := by
      rw [h.freeSeen_publishSome hxs]
      omega
    rw [pushAll_of_le (hlen ▸ hle), pushAll_of_le hxs, if_pos rfl, pushAll_of_le hys, publishSome_append, hlen]
  · have hlt : r.freeSeen < xs.length + ys.length := Nat.not_le.1 hle
    rw [pushAll_of_lt (hlen ▸ hlt), hlen, List.take_append]
    by_cases hxs : xs.length ≤ r.lookAtRead.freeSeen
    · obtain ⟨hall, hrest⟩ := h.pushAll_rest hxs hlt
      rw [if_pos hall, hrest, List.take_of_length_le hxs, ← Nat.add_min_add_left, Nat.add_sub_cancel' hxs]
    · -- The first part already falls short.
      have hfew : r.lookAtRead.freeSeen < xs.length := Nat.not_le.1 hxs
      have hseen := h.freeSeen_le_look
      have hzero : r.lookAtRead.freeSeen - xs.length = 0 := by omega
      have hshort : min xs.length r.lookAtRead.freeSeen ≠ xs.length := by omega
      rw [pushAll_of_lt (by omega), if_neg hshort, hzero, List.take_zero, List.append_nil, Nat.min_eq_right hfew.le,
        Nat.min_eq_right (by omega)]

theorem Stands.pushAll (h : r.Stands k) (items : List α) : ∃ k', (r.pushAll items).2.Stands k' := by
  by_cases hle : items.length ≤ r.freeSeen
  · have := h.ordered
    have hfree := h.freeSeen
    obtain ⟨k', hk', -⟩ := h.publishSome items (by omega)
    exact ⟨k', pushAll_of_le hle ▸ hk'⟩
  · have hlook := h.lookAtRead
    have := hlook.ordered
    have hfree := hlook.freeSeen
    have hlen := List.length_take_le r.lookAtRead.freeSeen items
    obtain ⟨k', hk', -⟩ := hlook.publishSome (items.take r.lookAtRead.freeSeen) (by omega)
    exact ⟨k', pushAll_of_lt (Nat.not_le.1 hle) ▸ hk'⟩

/-! ## Pushing one by one -/

/-- Pushes items one by one until one of them finds the ring full: how many went in. -/
def pushEach (r : Ring α) : List α → Nat × Ring α
  | [] => (0, r)
  | x :: xs =>
    let (ok, r) := r.push x
    if ok then
      let (n, r) := r.pushEach xs
      (n + 1, r)
    else (0, r)

theorem Stands.pushAll_eq_pushEach (h : r.Stands k) (items : List α) : r.pushAll items = r.pushEach items := by
  induction items generalizing r k with
  | nil => rfl
  | cons x xs ih =>
    obtain ⟨k', hk'⟩ := h.pushAll [x]
    have hone : (r.pushAll [x]).1 ≤ 1 := by
      by_cases hle : [x].length ≤ r.freeSeen
      · rw [pushAll_of_le hle]
        exact le_rfl
      · rw [pushAll_of_lt (Nat.not_le.1 hle)]
        exact Nat.min_le_left _ _
    rw [← List.singleton_append, h.pushAll_append, List.singleton_append]
    simp only [pushEach, h.push_eq, ← ih hk']
    by_cases hall : (r.pushAll [x]).1 = [x].length
    · have hok : ((r.pushAll [x]).1 != 0) = true := by rw [hall]; rfl
      rw [if_pos hall, hok, List.length_singleton, Nat.add_comm 1]
      rfl
    · have hnone : (r.pushAll [x]).1 = 0 := by
        rw [List.length_singleton] at hall
        omega
      have hok : ((r.pushAll [x]).1 != 0) = false := by rw [hnone]; rfl
      rw [if_neg hall, hok]
      exact Prod.ext hnone rfl

/-! ## Handing slots back in parts -/

theorem itemsFrom_add (r : Ring α) (cursor : UInt64) (m n : Nat) :
    r.itemsFrom cursor (m + n) = r.itemsFrom cursor m ++ r.itemsFrom (cursor + .ofNat m) n := by
  simp only [itemsFrom, List.range_add, List.map_append, List.map_map]
  congr 1
  refine List.map_congr_left fun i _ => ?_
  show r.item (cursor + .ofNat (m + i)) = r.item (cursor + .ofNat m + .ofNat i)
  rw [UInt64.ofNat_add, UInt64.add_assoc]

theorem length_itemsFrom (r : Ring α) (cursor : UInt64) (n : Nat) : (r.itemsFrom cursor n).length = n := by
  rw [itemsFrom, List.length_map, List.length_range]

/-- Hands the slots of some items back, if there are any. -/
def releaseSome (r : Ring α) (count : Nat) : Ring α :=
  if count = 0 then r else r.release count

theorem releaseSome_add (r : Ring α) (m n : Nat) :
    (r.releaseSome m).releaseSome n = r.releaseSome (m + n) := by
  have hnext : r.consumer.read + .ofNat m + .ofNat n = r.consumer.read + .ofNat (m + n) := by
    rw [UInt64.ofNat_add, UInt64.add_assoc]
  cases m with
  | zero => rw [Nat.zero_add]; rfl
  | succ m =>
    cases n with
    | zero => rfl
    | succ n =>
      show (r.release (m + 1)).release (n + 1) = r.release (m + 1 + (n + 1))
      simp only [release, hnext]

theorem releaseSome_lookAtWrite (r : Ring α) (count : Nat) :
    (r.releaseSome count).lookAtWrite = r.lookAtWrite.releaseSome count := by
  cases count <;> rfl

theorem itemsFrom_releaseSome (r : Ring α) (count : Nat) (cursor : UInt64) (n : Nat) :
    (r.releaseSome count).itemsFrom cursor n = r.itemsFrom cursor n := by
  cases count <;> rfl

theorem read_releaseSome (r : Ring α) (count : Nat) :
    (r.releaseSome count).consumer.read = r.consumer.read + .ofNat count := by
  cases count with
  | zero => exact (UInt64.add_zero _).symm
  | succ count => rfl

theorem Stands.releaseSome (h : r.Stands k) (count : Nat) (hle : k.ownRead + count ≤ k.cachedWrite) :
    ∃ k', (r.releaseSome count).Stands k' ∧ k'.cachedWrite = k.cachedWrite ∧ k'.ownRead = k.ownRead + count := by
  cases count with
  | zero => exact ⟨k, h, rfl, rfl⟩
  | succ count => exact ⟨_, h.release (count + 1) hle, rfl, rfl⟩

/-! ## Popping in parts -/

theorem Stands.availableSeen_le_look (h : r.Stands k) : r.availableSeen ≤ r.lookAtWrite.availableSeen := by
  have := h.ordered
  rw [h.availableSeen, h.lookAtWrite.availableSeen]
  show _ ≤ k.write - k.ownRead
  omega

theorem Stands.availableSeen_releaseSome (h : r.Stands k) {count : Nat} (hle : count ≤ r.availableSeen) :
    (r.releaseSome count).availableSeen = r.availableSeen - count := by
  have := h.ordered
  have havail := h.availableSeen
  obtain ⟨k', hk', hwrite, hread⟩ := h.releaseSome count (by omega)
  rw [hk'.availableSeen, hwrite, hread]
  omega

/-- A pop of no more than the consumer remembers takes place without a look. -/
theorem popUpTo_of_le {n : Nat} (hle : n ≤ r.availableSeen) :
    r.popUpTo n = (r.itemsFrom r.consumer.read n, r.releaseSome n) := by
  cases n with
  | zero => rfl
  | succ n =>
    have hcount : min (n + 1) r.availableSeen = n + 1 := Nat.min_eq_left hle
    simp only [popUpTo, Nat.not_lt.2 hle, if_false, hcount, Nat.succ_ne_zero]
    rfl

/-- A pop of more than that goes as far as the look shows items. -/
theorem popUpTo_of_lt {n : Nat} (hlt : r.availableSeen < n) :
    r.popUpTo n =
      (r.itemsFrom r.consumer.read (min n r.lookAtWrite.availableSeen),
        r.lookAtWrite.releaseSome (min n r.lookAtWrite.availableSeen)) := by
  have hne : n ≠ 0 := Nat.ne_zero_of_lt hlt
  simp only [popUpTo, hlt, hne, if_true, if_false]
  split
  · rename_i hzero
    rw [hzero]
    rfl
  · rename_i hsome
    rw [releaseSome, if_neg hsome]
    rfl

/-- Behind a look it makes no difference whether the consumer looks once more. -/
theorem popUpTo_of_fresh (hfresh : r.lookAtWrite = r) (n : Nat) :
    r.popUpTo n = (r.itemsFrom r.consumer.read (min n r.availableSeen), r.releaseSome (min n r.availableSeen)) := by
  by_cases hle : n ≤ r.availableSeen
  · rw [popUpTo_of_le hle, Nat.min_eq_left hle]
  · rw [popUpTo_of_lt (Nat.not_le.1 hle), hfresh]

/-- What follows the first part of a pop whose whole needs a look: the rest, as far as the look shows items. -/
theorem Stands.popUpTo_rest (h : r.Stands k) {m n : Nat} (hm : m ≤ r.lookAtWrite.availableSeen)
    (hlt : r.availableSeen < m + n) :
    (r.popUpTo m).1 = r.itemsFrom r.consumer.read m ∧
      (r.popUpTo m).2.popUpTo n =
        (r.itemsFrom (r.consumer.read + .ofNat m) (min n (r.lookAtWrite.availableSeen - m)),
          r.lookAtWrite.releaseSome (m + min n (r.lookAtWrite.availableSeen - m))) := by
  have hlook : (r.lookAtWrite.releaseSome m).availableSeen = r.lookAtWrite.availableSeen - m :=
    h.lookAtWrite.availableSeen_releaseSome hm
  by_cases hle : m ≤ r.availableSeen
  · -- The first part is what the consumer remembers, and the look comes with the second.
    have hmore : (r.releaseSome m).availableSeen < n := by
      rw [h.availableSeen_releaseSome hle]
      omega
    rw [popUpTo_of_le hle, popUpTo_of_lt hmore, releaseSome_lookAtWrite, hlook, releaseSome_add,
      itemsFrom_releaseSome, read_releaseSome]
    exact ⟨rfl, rfl⟩
  · -- The look comes with the first part.
    have hfresh : (r.lookAtWrite.releaseSome m).lookAtWrite = r.lookAtWrite.releaseSome m :=
      releaseSome_lookAtWrite _ _
    rw [popUpTo_of_lt (Nat.not_le.1 hle), Nat.min_eq_left hm, popUpTo_of_fresh hfresh, hlook, releaseSome_add,
      itemsFrom_releaseSome, read_releaseSome]
    exact ⟨rfl, rfl⟩

/-- A pop can be cut anywhere: its second part is popped behind the first, if there was enough for that. -/
theorem Stands.popUpTo_add (h : r.Stands k) (m n : Nat) :
    r.popUpTo (m + n) =
      if (r.popUpTo m).1.length = m then
        ((r.popUpTo m).1 ++ ((r.popUpTo m).2.popUpTo n).1, ((r.popUpTo m).2.popUpTo n).2)
      else r.popUpTo m := by
  by_cases hle : m + n ≤ r.availableSeen
  · -- No part needs a look.
    have hm : m ≤ r.availableSeen := by omega
    have hn : n ≤ (r.releaseSome m).availableSeen := by
      rw [h.availableSeen_releaseSome hm]
      omega
    rw [popUpTo_of_le hle, popUpTo_of_le hm, length_itemsFrom, if_pos rfl, popUpTo_of_le hn, releaseSome_add,
      itemsFrom_releaseSome, read_releaseSome, itemsFrom_add]
  · have hlt : r.availableSeen < m + n := Nat.not_le.1 hle
    rw [popUpTo_of_lt hlt]
    by_cases hm : m ≤ r.lookAtWrite.availableSeen
    · obtain ⟨hall, hrest⟩ := h.popUpTo_rest hm hlt
      have hcount : min (m + n) r.lookAtWrite.availableSeen = m + min n (r.lookAtWrite.availableSeen - m) := by
        omega
      rw [hall, length_itemsFrom, if_pos rfl, hrest, hcount, itemsFrom_add]
    · -- The first part already falls short.
      have hfew : r.lookAtWrite.availableSeen < m := Nat.not_le.1 hm
      have hseen := h.availableSeen_le_look
      have hcount : min (m + n) r.lookAtWrite.availableSeen = min m r.lookAtWrite.availableSeen := by omega
      have hshort : min m r.lookAtWrite.availableSeen ≠ m := by omega
      rw [popUpTo_of_lt (by omega), length_itemsFrom, if_neg hshort, hcount]

theorem Stands.popUpTo (h : r.Stands k) (n : Nat) : ∃ k', (r.popUpTo n).2.Stands k' := by
  have := h.ordered
  by_cases hle : n ≤ r.availableSeen
  · have havail := h.availableSeen
    obtain ⟨k', hk', -⟩ := h.releaseSome n (by omega)
    exact ⟨k', popUpTo_of_le hle ▸ hk'⟩
  · have havail := h.lookAtWrite.availableSeen
    have hcached := h.lookAtWrite.ordered
    obtain ⟨k', hk', -⟩ := h.lookAtWrite.releaseSome (min n r.lookAtWrite.availableSeen) (by omega)
    exact ⟨k', popUpTo_of_lt (Nat.not_le.1 hle) ▸ hk'⟩

/-! ## Popping one by one -/

/-- Pops items one by one, as many as asked for or until the ring is found empty. -/
def popEach (r : Ring α) : Nat → List α × Ring α
  | 0 => ([], r)
  | n + 1 =>
    match r.pop with
    | (some x, r) =>
      let (xs, r) := r.popEach n
      (x :: xs, r)
    | (none, r) => ([], r)

theorem Stands.popUpTo_eq_popEach (h : r.Stands k) (n : Nat) : r.popUpTo n = r.popEach n := by
  induction n generalizing r k with
  | zero => rfl
  | succ n ih =>
    obtain ⟨k', hk'⟩ := h.popUpTo 1
    have hone := r.length_popUpTo_le 1
    have hsplit := h.popUpTo_add 1 n
    rw [Nat.add_comm] at hsplit
    simp only [hsplit, popEach, h.pop_eq]
    generalize r.popUpTo 1 = popped at hk' hone ⊢
    obtain ⟨items, s⟩ := popped
    match items, hone with
    | [], _ => rfl
    | [x], _ =>
      show (x :: (s.popUpTo n).1, (s.popUpTo n).2) = (x :: (s.popEach n).1, (s.popEach n).2)
      rw [ih hk']

end Ring

namespace Traffic

variable {α : Type}

/-- Wherever the accesses of both parties have left a ring, in whatever order they were made. As long as nothing else
happens, a push of many goes in as far as pushes of its items one by one until the first that finds no room, and a
pop into a slice brings what pops one by one bring until the first that finds no item, and leaves the rest of the
slice alone. Both leave the very same ring: slots, published cursors, and each party's own and remembered ones. -/
theorem batch_eq_one_by_one [Inhabited α] (c : Capacity) (start : UInt64) (moves : List (Move α)) :
    let r := ((Traffic.start (Ring.startingAt c start)).applyAll moves).ring
    (∀ items, r.pushAll items = r.pushEach items) ∧
      ∀ slice,
        let (popped, s) := r.popEach slice.length
        r.popInto slice = (popped.length, popped ++ slice.drop popped.length, s) := by
  intro r
  obtain ⟨k, hk⟩ := (start_sound c start).applyAll moves
  have hstands : r.Stands k := hk.stands
  refine ⟨fun items => hstands.pushAll_eq_pushEach items, fun slice => ?_⟩
  rw [← hstands.popUpTo_eq_popEach slice.length]
  rfl

end Traffic

end TimestampRelay
