/-
Nothing in a ring in use goes wrong. The accesses are made again with all checked that could stop a party: the
subtraction that counts the free slots, which does not wrap, and the index of each slot. The cursors of a ring in use
stand in their chain before and after every access, so the checks never fail, and the slots of one operation are
different slots.
-/
import TimestampRelay.Proofs.Ring.Occupancy
import TimestampRelay.Proofs.Word

namespace TimestampRelay

variable {α : Type} {r : Ring α} {k : Cursors}

/-! ## Indices of slots -/

namespace Capacity

/-- The slot that a cursor stands at, its index checked. -/
def slot? (c : Capacity) (cursor : UInt64) : Option (Fin c.slots) :=
  let index := (cursor &&& c.mask).toNat
  if h : index < c.slots then some ⟨index, h⟩ else none

theorem slot?_eq (c : Capacity) (cursor : UInt64) : c.slot? cursor = some (c.slot cursor) :=
  dif_pos (c.slot cursor).isLt

/-- The indices of the slots of a batch, which is its first cursor and how many cursors there are from it on. -/
def indices (c : Capacity) (batch : UInt64 × Nat) : List Nat :=
  (List.range batch.2).map fun i => ((batch.1 + .ofNat i) &&& c.mask).toNat

theorem lt_of_mem_indices {c : Capacity} {batch : UInt64 × Nat} {index : Nat} (h : index ∈ c.indices batch) :
    index < c.slots := by
  obtain ⟨i, -, rfl⟩ := List.mem_map.1 h
  show ((batch.1 + .ofNat i) &&& c.mask).toNat < c.slots
  rw [toNat_and_mask]
  exact Nat.mod_lt _ c.slots_pos

/-- The cursors of a batch have slots of their own, as long as they are no more than there are slots. -/
theorem nodup_indices {c : Capacity} {batch : UInt64 × Nat} (hle : batch.2 ≤ c.slots) : (c.indices batch).Nodup := by
  refine List.pairwise_map.2 (List.pairwise_lt_range.imp_of_mem ?_)
  intro i j _ hj hlt heq
  rw [List.mem_range] at hj
  rw [← batch.1.ofNat_toNat, ← UInt64.ofNat_add, ← UInt64.ofNat_add] at heq
  exact c.slot_ofNat_ne (by omega) (by omega) (Fin.ext heq)

end Capacity

/-! ## Counts -/

namespace Ring

/-- The slots that are free as far as the producer remembers, their subtraction checked. -/
def freeSeen? (r : Ring α) : Option Nat :=
  (Word.sub? r.capacity.word (r.producer.write - r.producer.cachedRead)).map UInt64.toNat

/-- No more slots are taken, as far as the producer remembers, than there are. -/
theorem Stands.taken_le (h : r.Stands k) :
    (r.producer.write - r.producer.cachedRead).toNat ≤ r.capacity.slots := by
  have := h.ordered
  rw [h.ownWrite, h.cachedRead, toNat_ofNat_sub_ofNat (by omega) (h.fits le_rfl le_rfl)]
  omega

/-- No more items are there, as far as the consumer remembers, than there are slots. -/
theorem Stands.availableSeen_le (h : r.Stands k) :
    (r.consumer.cachedWrite - r.consumer.read).toNat ≤ r.capacity.slots := by
  have := h.ordered
  have hseen := h.availableSeen
  unfold Ring.availableSeen at hseen
  omega

theorem Stands.freeSeen?_eq (h : r.Stands k) : r.freeSeen? = some r.freeSeen := by
  have hle : r.producer.write - r.producer.cachedRead ≤ r.capacity.word := by
    rw [UInt64.le_iff_toNat_le, Capacity.toNat_word]
    exact h.taken_le
  unfold freeSeen? Ring.freeSeen Word.sub?
  rw [if_pos hle, Option.map_some, UInt64.toNat_sub_of_le _ _ hle, Capacity.toNat_word]

end Ring

/-! ## The producer -/

namespace Producing

/-- The first phase of a call, checked. -/
def begin? (r : Ring α) (call : Producer.Call α) : Option (Producing α) :=
  match call with
  -- A push of one item counts no slots. It compares a difference that may wrap.
  | .push _ => some (begin r call)
  | .pushAll items =>
    if items.isEmpty then some (.rest (some (answer call 0)))
    else do
      let free ← r.freeSeen?
      return if free < items.length then .look call else .write call items []
  | .freeSlots | .prefault => some (.look call)

/-- The phase behind a look, checked. -/
def afterLook? (r : Ring α) (call : Producer.Call α) : Option (Producing α) :=
  match call with
  | .push _ => some (afterLook r call)
  | .pushAll items => do
    let free ← r.freeSeen?
    return beginWriting call (items.take free)
  | .freeSlots => do
    let free ← r.freeSeen?
    return .rest (some (answer call free))
  | .prefault => do
    let free ← r.freeSeen?
    return if free = 0 then .rest (some (answer call 0)) else .touch free 0

def writeSlot? (r : Ring α) (ahead : Nat) (item : α) : Option (Ring α) := do
  let slot ← r.capacity.slot? (r.producer.write + .ofNat ahead)
  return { r with slots := r.slots.set slot item }

/-- One access, checked. -/
def step? [Inhabited α] (r : Ring α) : Producing α → Option (Ring α × Producing α)
  | .look call => do
    let next ← afterLook? r.lookAtRead call
    return (r.lookAtRead, next)
  | .write call (x :: left) written => do
    let s ← writeSlot? r written.length x
    return if left.isEmpty then (advance s (written.length + 1), .publish call (written ++ [x]))
      else (s, .write call left (written ++ [x]))
  | .touch left touched => do
    let s ← writeSlot? r touched default
    return (s, if left ≤ 1 then .rest (some .prefaulted) else .touch (left - 1) (touched + 1))
  | p => some (p.step r)

/-- The cursors of the operation in progress, at whose slots it writes. -/
def batch (r : Ring α) : Producing α → UInt64 × Nat
  | .rest _ | .look _ => (r.producer.write, 0)
  | .write _ left written => (r.producer.write, written.length + left.length)
  -- The own cursor is behind the batch by now, the published one still in front of it.
  | .publish _ written => (r.write, written.length)
  | .touch left touched => (r.producer.write, touched + left)

theorem begin?_eq (h : r.Stands k) (call : Producer.Call α) : begin? r call = some (begin r call) := by
  cases call with
  | push item => rfl
  | pushAll items =>
    simp only [begin?, begin, h.freeSeen?_eq]
    split <;> rfl
  | freeSlots | «prefault» => rfl

theorem afterLook?_eq (h : r.Stands k) (call : Producer.Call α) : afterLook? r call = some (afterLook r call) := by
  cases call with
  | push item => rfl
  | pushAll items | freeSlots | «prefault» => simp only [afterLook?, afterLook, h.freeSeen?_eq]; rfl

theorem writeSlot?_eq (r : Ring α) (ahead : Nat) (item : α) :
    writeSlot? r ahead item = some (writeSlot r ahead item) := by
  simp only [writeSlot?, Capacity.slot?_eq]
  rfl

/-- No check of an access of the producer fails. -/
theorem step?_eq [Inhabited α] (h : r.Stands k) (p : Producing α) : p.step? r = some (p.step r) := by
  match p with
  | .rest _ | .write _ [] _ | .publish _ _ => rfl
  | .look call =>
    simp only [step?, afterLook?_eq h.lookAtRead]
    rfl
  | .write _ [_] _ | .write _ (_ :: _ :: _) _ | .touch _ _ =>
    simp only [step?, writeSlot?_eq]
    rfl

/-- No operation of the producer has more cursors than there are slots. -/
theorem Sound.batch_le {p : Producing α} (h : p.Sound r k) (hr : r.Stands k) : (p.batch r).2 ≤ r.capacity.slots := by
  have := hr.ordered
  cases p with
  | rest answer | look call => exact Nat.zero_le _
  | write call left written =>
    obtain ⟨-, -, hroom, -⟩ := h
    show written.length + left.length ≤ _
    omega
  | publish call written =>
    obtain ⟨hown, -⟩ := h
    show written.length ≤ _
    omega
  | touch left touched =>
    obtain ⟨-, -, hroom⟩ := h
    show touched + left ≤ _
    omega

end Producing

/-! ## The consumer -/

namespace Consuming

def readSlot? (r : Ring α) (ahead : Nat) : Option α := do
  let slot ← r.capacity.slot? (r.consumer.read + .ofNat ahead)
  return r.slots[slot]

/-- One access, checked. -/
def step? (r : Ring α) : Consuming α → Option (Ring α × Consuming α)
  | .read call left got => do
    let item ← readSlot? r got.length
    return if left ≤ 1 then (advance r (got.length + 1), .publish call (got ++ [item]))
      else (r, .read call (left - 1) (got ++ [item]))
  | c => some (c.step r)

/-- The cursors of the operation in progress, at whose slots it reads. -/
def batch (r : Ring α) : Consuming α → UInt64 × Nat
  | .rest _ | .look _ => (r.consumer.read, 0)
  | .read _ left got => (r.consumer.read, got.length + left)
  | .publish _ got => (r.read, got.length)

/-- No check of an access of the consumer fails. -/
theorem step?_eq (r : Ring α) (c : Consuming α) : c.step? r = some (c.step r) := by
  cases c with
  | rest answer | look call | publish call got => rfl
  | read call left got =>
    simp only [step?, readSlot?, Capacity.slot?_eq]
    rfl

/-- No operation of the consumer has more cursors than there are slots. -/
theorem Sound.batch_le {c : Consuming α} (h : c.Sound r k) (hr : r.Stands k) : (c.batch r).2 ≤ r.capacity.slots := by
  have := hr.ordered
  cases c with
  | rest answer | look call => exact Nat.zero_le _
  | read call left got =>
    obtain ⟨-, -, hseen, -⟩ := h
    show got.length + left ≤ _
    omega
  | publish call got =>
    obtain ⟨hown, -⟩ := h
    show got.length ≤ _
    omega

end Consuming

/-! ## Both at once -/

namespace Traffic

variable [Inhabited α] {origin : Nat} {t : Traffic α}

/-- What happens next, checked. The lists of what was accepted and taken are kept as they are without checks. -/
def applyChecked (t : Traffic α) : Move α → Option (Traffic α)
  | .callProducer call =>
    match t.producing with
    | .rest _ => do
      let producing ← Producing.begin? t.ring call
      return { t with producing }
    | _ => some t
  | .produce => do
    let (ring, producing) ← t.producing.step? t.ring
    return { t with ring, producing, accepted := t.produce.accepted }
  | .consume => do
    let (ring, consuming) ← t.consuming.step? t.ring
    return { t with ring, consuming, taken := t.consume.taken }
  | move => some (t.apply move)

def applyAllChecked (t : Traffic α) (moves : List (Move α)) : Option (Traffic α) :=
  moves.foldlM applyChecked t

theorem Sound.applyChecked_eq (h : t.Sound origin k) (move : Move α) : t.applyChecked move = some (t.apply move) := by
  cases move with
  | callProducer call =>
    cases hp : t.producing with
    | rest answer =>
      simp only [applyChecked, Traffic.apply, hp, Producing.begin?_eq h.stands]
      rfl
    | look | write | publish | touch => simp only [applyChecked, Traffic.apply, hp]
  | produce =>
    simp only [applyChecked, Producing.step?_eq h.stands]
    rfl
  | consume =>
    simp only [applyChecked, Consuming.step?_eq]
    rfl
  | callConsumer call | glance => rfl

/-- No check of a whole history fails. -/
theorem Sound.applyAllChecked_eq (h : t.Sound origin k) (moves : List (Move α)) :
    t.applyAllChecked moves = some (t.applyAll moves) := by
  induction moves generalizing t k with
  | nil => rfl
  | cons move moves ih =>
    obtain ⟨l, hl⟩ := h.apply move
    unfold applyAllChecked
    rw [List.foldlM_cons, h.applyChecked_eq move]
    exact ih hl

/-- A ring of any capacity, its cursors anywhere, after any accesses of its parties in any order. Its stored cursors are
the residues of cursors that count the items without end and stand in a chain. None of the accesses went wrong, checked
one by one. As far as either party remembers, no more slots are taken and no more items are there than there are slots.
The slots of the operations in progress lie within the ring, and those of one operation are different slots. -/
theorem cursors_stay_chained (c : Capacity) (start : UInt64) (moves : List (Move α)) :
    let first : Traffic α := .start (Ring.startingAt c start)
    let t := first.applyAll moves
    let pushing := c.indices (t.producing.batch t.ring)
    let popping := c.indices (t.consuming.batch t.ring)
    (∃ k, t.ring.Stands k ∧ k.read = start.toNat + t.taken.length ∧ k.write = start.toNat + t.accepted.length) ∧
      first.applyAllChecked moves = some t ∧
      (t.ring.producer.write - t.ring.producer.cachedRead).toNat ≤ c.slots ∧
      (t.ring.consumer.cachedWrite - t.ring.consumer.read).toNat ≤ c.slots ∧
      (∀ index ∈ pushing ++ popping, index < c.slots) ∧ pushing.Nodup ∧ popping.Nodup := by
  intro first t pushing popping
  have hfirst : first.Sound start.toNat _ := start_sound c start
  obtain ⟨k, hk, honward⟩ := hfirst.onward moves
  have hcapacity : t.ring.capacity = c := honward.capacity
  have hpushing := hk.producing.batch_le hk.stands
  have hpopping := hk.consuming.batch_le hk.stands
  have htaken := hk.stands.taken_le
  have havailable := hk.stands.availableSeen_le
  rw [hcapacity] at hpushing hpopping htaken havailable
  refine ⟨⟨k, hk.stands, hk.read_eq, hk.write_eq⟩, hfirst.applyAllChecked_eq moves, htaken, havailable, ?_,
    Capacity.nodup_indices hpushing, Capacity.nodup_indices hpopping⟩
  intro index hmem
  rcases List.mem_append.1 hmem with hmem | hmem
  · exact Capacity.lt_of_mem_indices hmem
  · exact Capacity.lt_of_mem_indices hmem

/-- A ring of two slots, its cursors about to wrap, in the middle of a push of more items than it has room for. -/
theorem two_slots_stay_chained :
    let c : Capacity := ⟨1, by decide⟩
    let first : Traffic Nat := .start (Ring.startingAt c 18446744073709551615)
    let moves : List (Move Nat) := [.callProducer (.pushAll [7, 8, 9]), .produce, .produce]
    let t := first.applyAll moves
    let pushing := c.indices (t.producing.batch t.ring)
    first.applyAllChecked moves = some t ∧ t.producing = .write (.pushAll [7, 8, 9]) [8] [7] ∧ pushing = [1, 0] ∧
      1 < 2 ∧ pushing.Nodup := by
  intro c first moves t pushing
  obtain ⟨-, hchecked, -, -, hindex, hnodup, -⟩ := cursors_stay_chained c 18446744073709551615 moves
  have hproducing : t.producing = .write (.pushAll [7, 8, 9]) [8] [7] := by decide
  have hindices : pushing = [1, 0] := by decide
  have hmem : 1 ∈ pushing := by
    rw [hindices]
    simp
  exact ⟨hchecked, hproducing, hindices, hindex 1 (List.mem_append_left _ hmem), hnodup⟩

end Traffic

end TimestampRelay
