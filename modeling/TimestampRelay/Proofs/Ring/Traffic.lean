/-
The invariant of a ring in use by both parties at once, access by access: the cursors stand in a chain,
what was accepted is what was taken and what is published, the items a producer has written lie ahead
of what is published, and the items a consumer has read are the oldest ones. A party's accesses keep
the other party's half of it, for slots that one writes are not slots that the other may read.
-/
import TimestampRelay.Proofs.Ring.Fifo
import TimestampRelay.Ring.Traffic

namespace TimestampRelay

variable {α : Type} {r : Ring α} {k : Cursors}

/-! ## What holds in each phase -/

namespace Producing

/-- The producer's phase against its cursors: while it writes, the items written lie ahead of its cursor
and those left fit behind them; between the last write and the publication its cursor is ahead. -/
def Sound (r : Ring α) (k : Cursors) : Producing α → Prop
  | .rest _ | .look _ => k.ownWrite = k.write
  | .write _ left written =>
    k.ownWrite = k.write ∧ left ≠ [] ∧
      k.write + written.length + left.length ≤ k.cachedRead + r.capacity.slots ∧
      r.between k.write (k.write + written.length) = written
  | .publish _ written =>
    k.ownWrite = k.write + written.length ∧ r.between k.write (k.write + written.length) = written
  | .touch left touched =>
    k.ownWrite = k.write ∧ 0 < left ∧ k.write + touched + left ≤ k.cachedRead + r.capacity.slots

/-- Only the slots, the capacity and the producer's cursors matter, and a fresher view of the read cursor
does no harm. -/
theorem Sound.frame {s : Ring α} {l : Cursors} {p : Producing α} (h : p.Sound r k)
    (hitems : ∀ n, s.itemAt n = r.itemAt n) (hcap : s.capacity = r.capacity) (hwrite : l.write = k.write)
    (hown : l.ownWrite = k.ownWrite) (hcached : l.cachedRead = k.cachedRead) : p.Sound s l := by
  have hbetween : ∀ a b, s.between a b = r.between a b := fun a b =>
    Ring.between_congr fun n _ _ => hitems n
  cases p <;> simp only [Sound, hbetween, hcap, hwrite, hown, hcached] at h ⊢ <;> exact h

end Producing

namespace Consuming

/-- The consumer's phase against its cursors: while it reads, the items read are the oldest published ones
and those left are among what it has seen; between the last read and the publication its cursor is
ahead. -/
def Sound (r : Ring α) (k : Cursors) : Consuming α → Prop
  | .rest _ | .look _ => k.ownRead = k.read
  | .read _ left got =>
    k.ownRead = k.read ∧ 0 < left ∧ k.read + got.length + left ≤ k.cachedWrite ∧
      r.between k.read (k.read + got.length) = got
  | .publish _ got => k.ownRead = k.read + got.length ∧ r.between k.read (k.read + got.length) = got

/-- Only the published items and the consumer's cursors matter. -/
theorem Sound.frame {s : Ring α} {l : Cursors} {c : Consuming α} (h : c.Sound r k) (hr : r.Stands k)
    (hitems : ∀ n, k.read ≤ n → n < k.write → s.itemAt n = r.itemAt n) (hread : l.read = k.read)
    (hown : l.ownRead = k.ownRead) (hcached : l.cachedWrite = k.cachedWrite) : c.Sound s l := by
  have hbetween : ∀ b ≤ k.write, s.between k.read b = r.between k.read b := fun b hb =>
    Ring.between_congr fun n ha hn => hitems n ha (by omega)
  have := hr.ordered
  cases c with
  | rest answer | look call => simp only [Sound, hread, hown] at h ⊢; exact h
  | read call left got =>
    simp only [Sound, hread, hown, hcached] at h ⊢
    rw [hbetween _ (by omega)]
    exact h
  | publish call got =>
    simp only [Sound, hread, hown] at h ⊢
    rw [hbetween _ (by omega)]
    exact h

end Consuming

/-- Traffic in which all is in order. `origin` is where the cursors stood at first. -/
structure Traffic.Sound (origin : Nat) (t : Traffic α) (k : Cursors) : Prop where
  stands : t.ring.Stands k
  producing : t.producing.Sound t.ring k
  consuming : t.consuming.Sound t.ring k
  accepted_eq : t.accepted = t.taken ++ t.ring.toList
  read_eq : k.read = origin + t.taken.length

/-! ## Accesses of the producer -/

namespace Ring

theorem Stands.put (h : r.Stands k) (n : Nat) (x : α) : (r.put n x).Stands k :=
  { h with }

theorem Stands.advanceWrite (h : r.Stands k) (count : Nat)
    (hroom : k.ownWrite + count ≤ k.cachedRead + r.capacity.slots) :
    (Producing.advance r count).Stands { k with ownWrite := k.ownWrite + count } :=
  { h with
    ownWrite := by
      show r.producer.write + UInt64.ofNat count = .ofNat (k.ownWrite + count)
      rw [h.ownWrite, UInt64.ofNat_add]
    write_le := Nat.le_add_right_of_le h.write_le
    ownWrite_le := hroom }

theorem Stands.writeSlot_eq_put (h : r.Stands k) (ahead : Nat) (x : α) :
    Producing.writeSlot r ahead x = r.put (k.ownWrite + ahead) x := by
  have hcursor : r.producer.write + UInt64.ofNat ahead = .ofNat (k.ownWrite + ahead) := by
    rw [h.ownWrite, UInt64.ofNat_add]
  simp only [Producing.writeSlot, Ring.put, hcursor]

/-- A slot written within the free region leaves the published items alone. -/
theorem Stands.itemAt_put_ahead (h : r.Stands k) {n : Nat} (x : α)
    (hroom : n < k.cachedRead + r.capacity.slots) {m : Nat} (hm : k.read ≤ m) (hmn : m < n) :
    (r.put n x).itemAt m = r.itemAt m := by
  have := h.ordered
  exact r.itemAt_put_of_ne x (by omega) (by omega) (by omega)

theorem Stands.toList_put_ahead (h : r.Stands k) {n : Nat} (x : α) (hahead : k.ownWrite ≤ n)
    (hroom : n < k.cachedRead + r.capacity.slots) : (r.put n x).toList = r.toList := by
  have := h.ordered
  rw [(h.put n x).toList, h.toList]
  exact between_congr fun m hm hlt => h.itemAt_put_ahead x hroom hm (by omega)

end Ring

namespace Producing

/-- What a producer at rest does first is in order. -/
theorem begin_sound (h : r.Stands k) (hown : k.ownWrite = k.write) (call : Producer.Call α) :
    (begin r call).Sound r k := by
  have := h.ordered
  cases call with
  | push item =>
    simp only [begin]
    split
    · exact hown
    · rename_i hfull
      rw [h.looksFull_iff] at hfull
      exact ⟨hown, by simp, by simp only [List.length_nil, List.length_singleton]; omega, by simp⟩
  | pushAll items =>
    have hfree := h.freeSeen
    simp only [begin]
    split
    · exact hown
    · rename_i hne
      split
      · exact hown
      · exact ⟨hown, by simpa using hne, by simp only [List.length_nil]; omega, by simp⟩
  | freeSlots | «prefault» => exact hown

/-- What a producer does behind a look is in order. -/
theorem afterLook_sound (h : r.Stands k) (hown : k.ownWrite = k.write) (call : Producer.Call α) :
    (afterLook r call).Sound r k := by
  have := h.ordered
  have hfree := h.freeSeen
  cases call with
  | push item =>
    simp only [afterLook]
    split
    · exact hown
    · rename_i hfull
      rw [h.looksFull_iff] at hfull
      exact ⟨hown, by simp, by simp only [List.length_nil, List.length_singleton]; omega, by simp⟩
  | pushAll items =>
    simp only [afterLook, beginWriting]
    split
    · exact hown
    · rename_i hne
      refine ⟨hown, by simpa using hne, ?_, by simp⟩
      rw [List.length_nil, List.length_take]
      omega
  | freeSlots => exact hown
  | «prefault» =>
    simp only [afterLook]
    split
    · exact hown
    · exact ⟨hown, by omega, by omega⟩

end Producing

namespace Traffic

variable {origin : Nat} {t : Traffic α}

/-- A slot written ahead of the producer's cursor is none of the consumer's business. -/
theorem Sound.consuming_put (h : t.Sound origin k) {n : Nat} (x : α) (hahead : k.ownWrite ≤ n)
    (hroom : n < k.cachedRead + t.ring.capacity.slots) : t.consuming.Sound (t.ring.put n x) k := by
  have := h.stands.ordered
  exact h.consuming.frame h.stands
    (fun m hm hlt => h.stands.itemAt_put_ahead x hroom hm (by omega)) rfl rfl rfl

theorem Sound.accepted_eq_put (h : t.Sound origin k) {n : Nat} (x : α) (hahead : k.ownWrite ≤ n)
    (hroom : n < k.cachedRead + t.ring.capacity.slots) :
    t.accepted = t.taken ++ (t.ring.put n x).toList := by
  rw [h.stands.toList_put_ahead x hahead hroom]
  exact h.accepted_eq

/-- The items written so far and the one just put behind them. -/
theorem between_put_next (hr : r.Stands k) (hown : k.ownWrite = k.write) {written : List α} (x : α)
    (hroom : k.write + written.length < k.cachedRead + r.capacity.slots)
    (hwritten : r.between k.write (k.write + written.length) = written) :
    (r.put (k.ownWrite + written.length) x).between k.write (k.write + (written ++ [x]).length) =
      written ++ [x] := by
  have := hr.ordered
  rw [hown, List.length_append, List.length_singleton, ← Nat.add_assoc,
    Ring.between_succ _ (Nat.le_add_right _ _), Ring.itemAt_put_self]
  congr 1
  conv_rhs => rw [← hwritten]
  exact Ring.between_congr fun m hm hlt => hr.itemAt_put_ahead x (by omega) (by omega) (by omega)

section Produce

variable [Inhabited α]

/-! ### What an access of the producer does, phase by phase -/

theorem produce_of_rest {answer : Option Producer.Answer} (hp : t.producing = .rest answer) :
    t.produce = t := by
  cases t; subst hp; rfl

theorem produce_of_look {call : Producer.Call α} (hp : t.producing = .look call) :
    t.produce =
      { t with ring := t.ring.lookAtRead, producing := .afterLook t.ring.lookAtRead call } := by
  cases t; subst hp; rfl

theorem produce_of_write_last {call : Producer.Call α} {x : α} {written : List α}
    (hp : t.producing = .write call [x] written) :
    t.produce =
      { t with
        ring := Producing.advance (Producing.writeSlot t.ring written.length x) (written.length + 1)
        producing := .publish call (written ++ [x]) } := by
  cases t; subst hp; rfl

theorem produce_of_write_more {call : Producer.Call α} {x y : α} {left written : List α}
    (hp : t.producing = .write call (x :: y :: left) written) :
    t.produce =
      { t with
        ring := Producing.writeSlot t.ring written.length x
        producing := .write call (y :: left) (written ++ [x]) } := by
  cases t; subst hp; rfl

theorem produce_of_publish {call : Producer.Call α} {written : List α}
    (hp : t.producing = .publish call written) :
    t.produce =
      { t with
        ring := { t.ring with write := t.ring.producer.write }
        producing := .rest (some (Producing.answer call written.length))
        accepted := t.accepted ++ written } := by
  cases t; subst hp; rfl

theorem produce_of_touch {left touched : Nat} (hp : t.producing = .touch left touched) :
    t.produce =
      { t with
        ring := Producing.writeSlot t.ring touched default
        producing := if left ≤ 1 then .rest (some .prefaulted) else .touch (left - 1) (touched + 1) } := by
  cases t; subst hp; rfl

/-! ### Every access of the producer keeps the order -/

theorem Sound.produce_look (h : t.Sound origin k) {call : Producer.Call α}
    (hp : t.producing = .look call) : t.produce.Sound origin { k with cachedRead := k.read } := by
  have hprod := h.producing
  rw [hp] at hprod
  rw [produce_of_look hp]
  exact ⟨h.stands.lookAtRead, Producing.afterLook_sound h.stands.lookAtRead hprod call,
    h.consuming.frame h.stands (fun _ _ _ => rfl) rfl rfl rfl, h.accepted_eq, h.read_eq⟩

theorem Sound.produce_write (h : t.Sound origin k) {call : Producer.Call α} {left written : List α}
    (hp : t.producing = .write call left written) : ∃ k', t.produce.Sound origin k' := by
  have hprod := h.producing
  rw [hp] at hprod
  obtain ⟨hown, hne, hroom, hwritten⟩ := hprod
  match left, hne with
  | [x], _ =>
    -- With the last slot of a batch the producer's own cursor moves past the batch.
    simp only [List.length_singleton] at hroom
    have hnext := between_put_next h.stands hown x (by omega) hwritten
    have hstands : (t.ring.put (k.ownWrite + written.length) x).Stands k := h.stands.put _ x
    rw [produce_of_write_last hp, h.stands.writeSlot_eq_put]
    refine ⟨_, hstands.advanceWrite _ (by rw [hown]; exact hroom), ⟨?_, hnext⟩, ?_, ?_, h.read_eq⟩
    · show k.ownWrite + (written.length + 1) = k.write + (written ++ [x]).length
      rw [hown, List.length_append, List.length_singleton]
    · exact (h.consuming_put x (by omega) (by omega)).frame hstands (fun _ _ _ => rfl) rfl rfl rfl
    · exact h.accepted_eq_put x (by omega) (by omega)
  | x :: y :: left, _ =>
    simp only [List.length_cons] at hroom
    have hnext := between_put_next h.stands hown x (by omega) hwritten
    rw [produce_of_write_more hp, h.stands.writeSlot_eq_put]
    refine ⟨k, h.stands.put _ x, ⟨hown, by simp, ?_, hnext⟩, h.consuming_put x (by omega) (by omega),
      h.accepted_eq_put x (by omega) (by omega), h.read_eq⟩
    show k.write + (written ++ [x]).length + (y :: left).length ≤ k.cachedRead + t.ring.capacity.slots
    simp only [List.length_append, List.length_cons, List.length_nil]
    omega

theorem Sound.produce_publish (h : t.Sound origin k) {call : Producer.Call α} {written : List α}
    (hp : t.producing = .publish call written) :
    t.produce.Sound origin { k with write := k.ownWrite } := by
  have hprod := h.producing
  rw [hp] at hprod
  obtain ⟨hown, hwritten⟩ := hprod
  have := h.stands.ordered
  have hstands : Ring.Stands { t.ring with write := t.ring.producer.write }
      { k with write := k.ownWrite } :=
    { h.stands with
      write := h.stands.ownWrite
      cachedWrite_le := by show k.cachedWrite ≤ k.ownWrite; omega
      write_le := le_rfl }
  rw [produce_of_publish hp]
  refine ⟨hstands, rfl, h.consuming.frame h.stands (fun _ _ _ => rfl) rfl rfl rfl, ?_, h.read_eq⟩
  -- The items between the published cursor and the producer's own are those of the batch.
  have hlist : Ring.toList { t.ring with write := t.ring.producer.write } =
      t.ring.toList ++ t.ring.between k.write k.ownWrite := by
    rw [hstands.toList, h.stands.toList, Ring.between_append _ (by omega) h.stands.write_le]
    rfl
  show t.accepted ++ written = t.taken ++ Ring.toList { t.ring with write := t.ring.producer.write }
  rw [hlist, ← List.append_assoc, ← h.accepted_eq, hown, hwritten]

theorem Sound.produce_touch (h : t.Sound origin k) {left touched : Nat}
    (hp : t.producing = .touch left touched) : t.produce.Sound origin k := by
  have hprod := h.producing
  rw [hp] at hprod
  obtain ⟨hown, hleft, hroom⟩ := hprod
  rw [produce_of_touch hp, h.stands.writeSlot_eq_put]
  refine ⟨h.stands.put _ default, ?_, h.consuming_put default (by omega) (by omega),
    h.accepted_eq_put default (by omega) (by omega), h.read_eq⟩
  by_cases hlast : left ≤ 1
  · simp only [if_pos hlast]
    exact hown
  · simp only [if_neg hlast]
    refine ⟨hown, by omega, ?_⟩
    show k.write + (touched + 1) + (left - 1) ≤ k.cachedRead + t.ring.capacity.slots
    omega

/-- An access of the producer keeps the order. -/
theorem Sound.produce (h : t.Sound origin k) : ∃ k', t.produce.Sound origin k' := by
  cases hp : t.producing with
  | rest answer => exact ⟨k, by rw [produce_of_rest hp]; exact h⟩
  | look call => exact ⟨_, h.produce_look hp⟩
  | write call left written => exact h.produce_write hp
  | publish call written => exact ⟨_, h.produce_publish hp⟩
  | touch left touched => exact ⟨k, h.produce_touch hp⟩

end Produce

end Traffic

/-! ## Accesses of the consumer -/

namespace Ring

theorem Stands.advanceRead (h : r.Stands k) (count : Nat) (hle : k.ownRead + count ≤ k.cachedWrite) :
    (Consuming.advance r count).Stands { k with ownRead := k.ownRead + count } :=
  { h with
    ownRead := by
      show r.consumer.read + UInt64.ofNat count = .ofNat (k.ownRead + count)
      rw [h.ownRead, UInt64.ofNat_add]
    read_le := Nat.le_add_right_of_le h.read_le
    ownRead_le := hle }

theorem Stands.readSlot_eq_itemAt (h : r.Stands k) (ahead : Nat) :
    Consuming.readSlot r ahead = r.itemAt (k.ownRead + ahead) := by
  rw [Consuming.readSlot, h.ownRead, ← UInt64.ofNat_add]
  rfl

end Ring

namespace Consuming

/-- What a consumer at rest does first is in order. -/
theorem begin_sound (h : r.Stands k) (hown : k.ownRead = k.read) (call : Consumer.Call α) :
    (begin r call).Sound r k := by
  have := h.ordered
  have havail := h.availableSeen
  cases call with
  | pop =>
    simp only [begin]
    split
    · exact hown
    · rename_i hempty
      rw [h.looksEmpty_iff] at hempty
      exact ⟨hown, by omega, by simp only [List.length_nil]; omega, by simp⟩
  | popInto slice =>
    simp only [begin]
    split
    · exact hown
    · rename_i hne
      have hpos : 0 < slice.length := List.length_pos_iff.2 (by simpa using hne)
      split
      · exact hown
      · exact ⟨hown, hpos, by simp only [List.length_nil]; omega, by simp⟩
  | available | exhausted => exact hown

theorem beginReading_sound (hown : k.ownRead = k.read) (call : Consumer.Call α) {count : Nat}
    (hle : k.read + count ≤ k.cachedWrite) : (beginReading call count).Sound r k := by
  unfold beginReading
  split
  · exact hown
  · exact ⟨hown, by omega, by simp only [List.length_nil]; omega, by simp⟩

/-- What a consumer does behind a look is in order. -/
theorem afterLook_sound (h : r.Stands k) (hown : k.ownRead = k.read) (call : Consumer.Call α) :
    (afterLook r call).Sound r k := by
  have := h.ordered
  have havail := h.availableSeen
  cases call with
  | pop =>
    refine beginReading_sound hown _ ?_
    split
    · omega
    · rename_i hempty
      rw [h.looksEmpty_iff] at hempty
      omega
  | popInto slice => exact beginReading_sound hown _ (by omega)
  | available | exhausted => exact hown

end Consuming

namespace Traffic

variable {origin : Nat} {t : Traffic α}

/-! ### What an access of the consumer does, phase by phase -/

theorem consume_of_rest {answer : Option (Consumer.Answer α)} (hc : t.consuming = .rest answer) :
    t.consume = t := by
  cases t; subst hc; rfl

theorem consume_of_look {call : Consumer.Call α} (hc : t.consuming = .look call) :
    t.consume =
      { t with ring := t.ring.lookAtWrite, consuming := .afterLook t.ring.lookAtWrite call } := by
  cases t; subst hc; rfl

theorem consume_of_read_last {call : Consumer.Call α} {left : Nat} {got : List α}
    (hc : t.consuming = .read call left got) (hleft : left ≤ 1) :
    t.consume =
      { t with
        ring := Consuming.advance t.ring (got.length + 1)
        consuming := .publish call (got ++ [Consuming.readSlot t.ring got.length]) } := by
  cases t; subst hc
  simp only [consume, Consuming.step, if_pos hleft]

theorem consume_of_read_more {call : Consumer.Call α} {left : Nat} {got : List α}
    (hc : t.consuming = .read call left got) (hleft : ¬ left ≤ 1) :
    t.consume =
      { t with consuming := .read call (left - 1) (got ++ [Consuming.readSlot t.ring got.length]) } := by
  cases t; subst hc
  simp only [consume, Consuming.step, if_neg hleft]

theorem consume_of_publish {call : Consumer.Call α} {got : List α} (hc : t.consuming = .publish call got) :
    t.consume =
      { t with
        ring := { t.ring with read := t.ring.consumer.read }
        consuming := .rest (some (Consuming.answer call got 0))
        taken := t.taken ++ got } := by
  cases t; subst hc; rfl

/-! ### Every access of the consumer keeps the order -/

theorem Sound.consume_look (h : t.Sound origin k) {call : Consumer.Call α}
    (hc : t.consuming = .look call) : t.consume.Sound origin { k with cachedWrite := k.write } := by
  have hcons := h.consuming
  rw [hc] at hcons
  rw [consume_of_look hc]
  exact ⟨h.stands.lookAtWrite, h.producing.frame (fun _ => rfl) rfl rfl rfl rfl,
    Consuming.afterLook_sound h.stands.lookAtWrite hcons call, h.accepted_eq, h.read_eq⟩

theorem Sound.consume_read (h : t.Sound origin k) {call : Consumer.Call α} {left : Nat} {got : List α}
    (hc : t.consuming = .read call left got) : ∃ k', t.consume.Sound origin k' := by
  have hcons := h.consuming
  rw [hc] at hcons
  obtain ⟨hown, hleft, hseen, hgot⟩ := hcons
  have hitem : Consuming.readSlot t.ring got.length = t.ring.itemAt (k.read + got.length) := by
    rw [h.stands.readSlot_eq_itemAt, hown]
  have hlen : (got ++ [t.ring.itemAt (k.read + got.length)]).length = got.length + 1 := by simp
  have hnext : t.ring.between k.read (k.read + (got.length + 1)) =
      got ++ [t.ring.itemAt (k.read + got.length)] := by
    rw [← Nat.add_assoc, Ring.between_succ _ (Nat.le_add_right _ _), hgot]
  by_cases hlast : left ≤ 1
  · -- With the last slot of a batch the consumer's own cursor moves past the batch.
    rw [consume_of_read_last hc hlast, hitem]
    refine ⟨_, h.stands.advanceRead (got.length + 1) (by omega),
      h.producing.frame (fun _ => rfl) rfl rfl rfl rfl, ⟨?_, ?_⟩, h.accepted_eq, h.read_eq⟩
    · show k.ownRead + (got.length + 1) = _
      rw [hown, hlen]
    · rw [hlen]
      exact hnext
  · rw [consume_of_read_more hc hlast, hitem]
    refine ⟨k, h.stands, h.producing, ⟨hown, by omega, ?_, ?_⟩, h.accepted_eq, h.read_eq⟩
    · rw [hlen]
      omega
    · rw [hlen]
      exact hnext

theorem Sound.consume_publish (h : t.Sound origin k) {call : Consumer.Call α} {got : List α}
    (hc : t.consuming = .publish call got) : t.consume.Sound origin { k with read := k.ownRead } := by
  have hcons := h.consuming
  rw [hc] at hcons
  obtain ⟨hown, hgot⟩ := hcons
  have := h.stands.ordered
  have hstands : Ring.Stands { t.ring with read := t.ring.consumer.read }
      { k with read := k.ownRead } :=
    { h.stands with
      read := h.stands.ownRead
      cachedRead_le := by show k.cachedRead ≤ k.ownRead; omega
      read_le := le_rfl }
  rw [consume_of_publish hc]
  refine ⟨hstands, h.producing.frame (fun _ => rfl) rfl rfl rfl rfl, rfl, ?_, ?_⟩
  · -- The oldest published items are those of the batch.
    have hlist : t.ring.toList =
        got ++ Ring.toList { t.ring with read := t.ring.consumer.read } := by
      rw [hstands.toList, h.stands.toList, ← Ring.between_append _ h.stands.read_le (by omega)]
      conv_rhs => rw [← hgot, ← hown]
      rfl
    show t.accepted = t.taken ++ got ++ Ring.toList { t.ring with read := t.ring.consumer.read }
    rw [List.append_assoc, ← hlist]
    exact h.accepted_eq
  · show k.ownRead = origin + (t.taken ++ got).length
    rw [hown, h.read_eq, List.length_append, Nat.add_assoc]

/-- An access of the consumer keeps the order. -/
theorem Sound.consume (h : t.Sound origin k) : ∃ k', t.consume.Sound origin k' := by
  cases hc : t.consuming with
  | rest answer => exact ⟨k, by rw [consume_of_rest hc]; exact h⟩
  | look call => exact ⟨_, h.consume_look hc⟩
  | read call left got => exact h.consume_read hc
  | publish call got => exact ⟨_, h.consume_publish hc⟩

/-! ## Whole histories -/

theorem start_sound [Inhabited α] (c : Capacity) (start : UInt64) :
    (Traffic.start (Ring.startingAt c start : Ring α)).Sound start.toNat
      ⟨start.toNat, start.toNat, start.toNat, start.toNat, start.toNat, start.toNat⟩ :=
  ⟨Ring.startingAt_stands c start, rfl, rfl, (Ring.toList_startingAt c start).symm, rfl⟩

/-- Whatever happens next keeps the order. -/
theorem Sound.apply [Inhabited α] (h : t.Sound origin k) (move : Move α) :
    ∃ k', (t.apply move).Sound origin k' := by
  cases move with
  | callProducer call =>
    cases hp : t.producing with
    | rest answer =>
      have hown : k.ownWrite = k.write := by
        have hprod := h.producing
        rw [hp] at hprod
        exact hprod
      simp only [Traffic.apply, hp]
      exact ⟨k, { h with producing := Producing.begin_sound h.stands hown call }⟩
    | look | write | publish | touch => simp only [Traffic.apply, hp]; exact ⟨k, h⟩
  | callConsumer call =>
    cases hc : t.consuming with
    | rest answer =>
      have hown : k.ownRead = k.read := by
        have hcons := h.consuming
        rw [hc] at hcons
        exact hcons
      simp only [Traffic.apply, hc]
      exact ⟨k, { h with consuming := Consuming.begin_sound h.stands hown call }⟩
    | look | read | publish => simp only [Traffic.apply, hc]; exact ⟨k, h⟩
  | produce => exact h.produce
  | consume => exact h.consume
  | glance => exact ⟨k, { h with }⟩

/-- Every history keeps the order. -/
theorem Sound.applyAll [Inhabited α] (h : t.Sound origin k) (moves : List (Move α)) :
    ∃ k', (t.applyAll moves).Sound origin k' := by
  induction moves generalizing t k with
  | nil => exact ⟨k, h⟩
  | cons move moves ih =>
    obtain ⟨k', hk'⟩ := h.apply move
    exact ih hk'

end Traffic

end TimestampRelay
