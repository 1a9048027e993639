/-
A call alone. Made while nothing else happens, the accesses of a call come to an end, and there they have done what the
operation does at once: the same answer, and the same ring down to every slot and every cursor. So an operation taken
as a whole and the same operation taken apart into its accesses agree wherever the other party keeps still.
-/
import TimestampRelay.Proofs.Ring.Batch

namespace TimestampRelay

theorem add_ofNat_zero (cursor : UInt64) : cursor + .ofNat 0 = cursor :=
  UInt64.add_zero cursor

theorem add_ofNat_succ (cursor : UInt64) (n : Nat) : cursor + .ofNat (n + 1) = cursor + .ofNat n + 1 := by
  rw [UInt64.ofNat_add, ← UInt64.add_assoc]
  rfl

namespace Ring

variable {α σ : Type} {step : Ring α → σ → Ring α × σ} {r r' s : Ring α} {p p' q : σ}

/-! ## Accesses without interruption -/

/-- The accesses of a party that stands at `p` come to rest at `q`, where the ring is `s`. -/
def ComesTo (step : Ring α → σ → Ring α × σ) (r : Ring α) (p : σ) (s : Ring α) (q : σ) : Prop :=
  ∃ least, ∀ count ≥ least, (fun x : Ring α × σ => step x.1 x.2)^[count] (r, p) = (s, q)

theorem ComesTo.rest (h : step r p = (r, p)) : ComesTo step r p r p :=
  ⟨0, fun count _ => Function.iterate_fixed h count⟩

theorem ComesTo.access (hstep : step r p = (r', p')) (h : ComesTo step r' p' s q) : ComesTo step r p s q := by
  obtain ⟨least, hleast⟩ := h
  refine ⟨least + 1, fun count hcount => ?_⟩
  obtain ⟨count, rfl⟩ := Nat.exists_eq_add_one.2 ((Nat.succ_pos least).trans_le hcount)
  rw [Function.iterate_succ_apply, hstep]
  exact hleast count (Nat.le_of_succ_le_succ hcount)

theorem itemsFrom_succ (r : Ring α) (cursor : UInt64) (n : Nat) :
    r.itemsFrom cursor (n + 1) = r.item cursor :: r.itemsFrom (cursor + 1) n := by
  have hone : r.itemsFrom cursor 1 = [r.item cursor] := congrArg (fun place => [r.item place]) (add_ofNat_zero cursor)
  rw [Nat.add_comm, itemsFrom_add, hone]
  rfl

end Ring

/-! ## The producer -/

namespace Producing

variable {α : Type} [Inhabited α]

theorem comesTo_rest (r : Ring α) (answer : Option Producer.Answer) :
    Ring.ComesTo step r (.rest answer) r (.rest answer) :=
  .rest rfl

/-- Items are written one by one, and published together. -/
theorem comesTo_write (call : Producer.Call α) {left : List α} (hne : left ≠ []) (written : List α) (r : Ring α) :
    let next := r.producer.write + .ofNat (written.length + left.length)
    Ring.ComesTo step r (.write call left written)
      { r with
        slots := Ring.fill r.slots (r.producer.write + .ofNat written.length) left
        write := next
        producer := { r.producer with write := next } }
      (.rest (some (answer call (written.length + left.length)))) := by
  induction left generalizing r written with
  | nil => exact absurd rfl hne
  | cons x left ih =>
    cases left with
    | nil =>
      refine .access rfl (.access rfl ?_)
      rw [List.length_append]
      exact comesTo_rest _ _
    | cons y left =>
      have hlen : (written ++ [x]).length + (y :: left).length = written.length + (x :: y :: left).length := by
        simp only [List.length_append, List.length_cons, List.length_nil]
        omega
      have hrest := ih (List.cons_ne_nil y left) (written ++ [x]) (writeSlot r written.length x)
      rw [hlen, List.length_append, List.length_singleton, add_ofNat_succ] at hrest
      exact .access rfl hrest

theorem comesTo_beginWriting (call : Producer.Call α) (items : List α) (r : Ring α) :
    Ring.ComesTo step r (beginWriting call items) (r.publishSome items) (.rest (some (answer call items.length))) := by
  cases items with
  | nil => exact comesTo_rest _ _
  | cons x xs =>
    have hwrite := comesTo_write call (List.cons_ne_nil x xs) [] r
    rw [List.length_nil, Nat.zero_add, add_ofNat_zero] at hwrite
    exact hwrite

theorem comesTo_push (r : Ring α) (item : α) :
    Ring.ComesTo step r (begin r (.push item)) (r.push item).2 (.rest (some (.accepted (r.push item).1))) := by
  have hpublish := comesTo_beginWriting (.push item) [item]
  simp only [begin, Ring.push]
  split
  · -- The ring looked full, and the producer looks again.
    refine .access rfl ?_
    simp only [afterLook]
    split
    · exact comesTo_rest _ _
    · exact hpublish r.lookAtRead
  · exact hpublish r

theorem comesTo_pushAll (r : Ring α) (items : List α) :
    Ring.ComesTo step r (begin r (.pushAll items)) (r.pushAll items).2
      (.rest (some (.pushed (r.pushAll items).1))) := by
  by_cases hle : items.length ≤ r.freeSeen
  · have hbegin : begin r (.pushAll items) = beginWriting (.pushAll items) items := by
      simp only [begin, beginWriting, Nat.not_lt.2 hle, if_false]
    rw [hbegin, Ring.pushAll_of_le hle]
    exact comesTo_beginWriting _ items r
  · have hlt : r.freeSeen < items.length := Nat.not_le.1 hle
    have hne : items ≠ [] := List.ne_nil_of_length_pos (Nat.zero_lt_of_lt hlt)
    have hsome : items.isEmpty = false := List.isEmpty_eq_false_iff.2 hne
    have hbegin : begin r (.pushAll items) = .look (.pushAll items) := by
      simp only [begin, hsome, hlt, if_true]
      rfl
    rw [hbegin, Ring.pushAll_of_lt hlt, Nat.min_comm, ← List.length_take]
    exact .access rfl (comesTo_beginWriting _ _ r.lookAtRead)

/-- Free slots are overwritten one by one. -/
theorem comesTo_touch {left : Nat} (hpos : 0 < left) (touched : Nat) (r : Ring α) :
    Ring.ComesTo step r (.touch left touched)
      { r with slots := Ring.fill r.slots (r.producer.write + .ofNat touched) (List.replicate left default) }
      (.rest (some .prefaulted)) := by
  induction left generalizing r touched with
  | zero => exact absurd hpos (lt_irrefl 0)
  | succ left ih =>
    cases left with
    | zero => exact .access rfl (comesTo_rest _ _)
    | succ left =>
      have hrest := ih (Nat.succ_pos left) (touched + 1) (writeSlot r touched default)
      rw [add_ofNat_succ] at hrest
      exact .access rfl hrest

theorem comesTo_prefault (r : Ring α) :
    Ring.ComesTo step r (begin r .prefault) r.prefault (.rest (some .prefaulted)) := by
  refine .access rfl ?_
  simp only [afterLook, Ring.prefault]
  split
  · rename_i hfull
    rw [hfull]
    exact comesTo_rest _ _
  · rename_i hfree
    have htouch := comesTo_touch (Nat.pos_of_ne_zero hfree) 0 r.lookAtRead
    rw [add_ofNat_zero] at htouch
    exact htouch

/-- Whatever the producer is called for, its accesses come to what the operation does. -/
theorem comesTo_produce (r : Ring α) (call : Producer.Call α) :
    Ring.ComesTo step r (begin r call) (r.produce call).2 (.rest (some (r.produce call).1)) := by
  cases call with
  | push item => exact comesTo_push r item
  | pushAll items => exact comesTo_pushAll r items
  | freeSlots => exact .access rfl (comesTo_rest _ _)
  | prefault => exact comesTo_prefault r

end Producing

/-! ## The consumer -/

namespace Consuming

variable {α : Type}

theorem comesTo_rest (r : Ring α) (answer : Option (Consumer.Answer α)) :
    Ring.ComesTo step r (.rest answer) r (.rest answer) :=
  .rest rfl

/-- Slots are read one by one, and handed back together. -/
theorem comesTo_read (call : Consumer.Call α) {left : Nat} (hpos : 0 < left) (got : List α) (r : Ring α) :
    Ring.ComesTo step r (.read call left got) (r.release (got.length + left))
      (.rest (some (answer call (got ++ r.itemsFrom (r.consumer.read + .ofNat got.length) left) 0))) := by
  induction left generalizing got with
  | zero => exact absurd hpos (lt_irrefl 0)
  | succ left ih =>
    have hitem : readSlot r got.length = r.item (r.consumer.read + .ofNat got.length) := rfl
    rw [Ring.itemsFrom_succ, ← hitem, ← add_ofNat_succ]
    cases left with
    | zero => exact .access rfl (.access rfl (comesTo_rest _ _))
    | succ left =>
      have hlen : (got ++ [readSlot r got.length]).length = got.length + 1 := by
        rw [List.length_append, List.length_singleton]
      have hrest := ih (Nat.succ_pos left) (got ++ [readSlot r got.length])
      rw [hlen, List.append_assoc, List.singleton_append, Nat.add_right_comm, Nat.add_assoc] at hrest
      exact .access rfl hrest

theorem comesTo_beginReading (call : Consumer.Call α) (count : Nat) (r : Ring α) :
    Ring.ComesTo step r (beginReading call count) (r.releaseSome count)
      (.rest (some (answer call (r.itemsFrom r.consumer.read count) 0))) := by
  cases count with
  | zero => exact comesTo_rest _ _
  | succ count =>
    have hread := comesTo_read call (Nat.succ_pos count) [] r
    rw [List.length_nil, Nat.zero_add, add_ofNat_zero, List.nil_append] at hread
    exact hread

theorem comesTo_pop (r : Ring α) :
    Ring.ComesTo step r (begin r .pop) r.pop.2 (.rest (some (.item r.pop.1))) := by
  have hrelease (r : Ring α) : Ring.ComesTo step r (.read .pop 1 []) (r.release 1)
      (.rest (some (.item (some (r.item r.consumer.read))))) := by
    have hread := comesTo_read .pop Nat.one_pos [] r
    rw [Ring.itemsFrom_succ, List.length_nil, add_ofNat_zero] at hread
    exact hread
  simp only [begin, Ring.pop]
  split
  · -- The ring looked empty, and the consumer looks again.
    refine .access rfl ?_
    simp only [afterLook]
    split
    · exact comesTo_rest _ _
    · exact hrelease r.lookAtWrite
  · exact hrelease r

theorem comesTo_popInto (r : Ring α) (slice : List α) :
    Ring.ComesTo step r (begin r (.popInto slice)) (r.popInto slice).2.2
      (.rest (some (.slice (r.popInto slice).1 (r.popInto slice).2.1))) := by
  by_cases hle : slice.length ≤ r.availableSeen
  · have hbegin : begin r (.popInto slice) = beginReading (.popInto slice) slice.length := by
      simp only [begin, beginReading, Nat.not_lt.2 hle, if_false, List.isEmpty_iff, List.length_eq_zero_iff]
    rw [hbegin, Ring.popInto, Ring.popUpTo_of_le hle]
    exact comesTo_beginReading _ _ r
  · have hlt : r.availableSeen < slice.length := Nat.not_le.1 hle
    have hne : slice ≠ [] := List.ne_nil_of_length_pos (Nat.zero_lt_of_lt hlt)
    have hsome : slice.isEmpty = false := List.isEmpty_eq_false_iff.2 hne
    have hbegin : begin r (.popInto slice) = .look (.popInto slice) := by
      simp only [begin, hsome, hlt, if_true]
      rfl
    rw [hbegin, Ring.popInto, Ring.popUpTo_of_lt hlt]
    exact .access rfl (comesTo_beginReading _ _ r.lookAtWrite)

/-- Whatever the consumer is called for, its accesses come to what the operation does. -/
theorem comesTo_consume (r : Ring α) (call : Consumer.Call α) :
    Ring.ComesTo step r (begin r call) (r.consume call).2 (.rest (some (r.consume call).1)) := by
  cases call with
  | pop => exact comesTo_pop r
  | popInto slice => exact comesTo_popInto r slice
  | available => exact .access rfl (comesTo_rest _ _)
  | exhausted => exact .access rfl (comesTo_rest _ _)

end Consuming

/-! ## Calls among others that keep still -/

namespace Traffic

variable {α : Type} [Inhabited α] {t : Traffic α}

theorem applyAll_produce (t : Traffic α) (count : Nat) :
    ((t.applyAll (List.replicate count .produce)).ring, (t.applyAll (List.replicate count .produce)).producing) =
        (fun x : Ring α × Producing α => x.2.step x.1)^[count] (t.ring, t.producing) ∧
      (t.applyAll (List.replicate count .produce)).consuming = t.consuming := by
  induction count generalizing t with
  | zero => exact ⟨rfl, rfl⟩
  | succ count ih => exact ih t.produce

theorem applyAll_consume (t : Traffic α) (count : Nat) :
    ((t.applyAll (List.replicate count .consume)).ring, (t.applyAll (List.replicate count .consume)).consuming) =
        (fun x : Ring α × Consuming α => x.2.step x.1)^[count] (t.ring, t.consuming) ∧
      (t.applyAll (List.replicate count .consume)).producing = t.producing := by
  induction count generalizing t with
  | zero => exact ⟨rfl, rfl⟩
  | succ count ih => exact ih t.consume

/-- A producer that is called while it rests, and then makes its accesses while nothing else happens, is soon at rest
again. It answers as the operation answers, and leaves the ring as the operation leaves it. -/
theorem producer_alone {answer : Option Producer.Answer} (hrest : t.producing = .rest answer)
    (call : Producer.Call α) :
    ∃ least, ∀ count ≥ least,
      let s := t.applyAll (.callProducer call :: List.replicate count .produce)
      s.producing = .rest (some (t.ring.produce call).1) ∧ s.ring = (t.ring.produce call).2 ∧
        s.consuming = t.consuming := by
  obtain ⟨least, hleast⟩ := Producing.comesTo_produce t.ring call
  refine ⟨least, fun count hcount => ?_⟩
  have hcalled : t.apply (.callProducer call) = { t with producing := .begin t.ring call } := by
    simp only [apply, hrest]
  obtain ⟨hmade, hstill⟩ := applyAll_produce { t with producing := .begin t.ring call } count
  rw [hleast count hcount, Prod.mk.injEq] at hmade
  simp only [applyAll, List.foldl_cons, hcalled]
  exact ⟨hmade.2, hmade.1, hstill⟩

/-- The same of a consumer. -/
theorem consumer_alone {answer : Option (Consumer.Answer α)} (hrest : t.consuming = .rest answer)
    (call : Consumer.Call α) :
    ∃ least, ∀ count ≥ least,
      let s := t.applyAll (.callConsumer call :: List.replicate count .consume)
      s.consuming = .rest (some (t.ring.consume call).1) ∧ s.ring = (t.ring.consume call).2 ∧
        s.producing = t.producing := by
  obtain ⟨least, hleast⟩ := Consuming.comesTo_consume t.ring call
  refine ⟨least, fun count hcount => ?_⟩
  have hcalled : t.apply (.callConsumer call) = { t with consuming := .begin t.ring call } := by
    simp only [apply, hrest]
  obtain ⟨hmade, hstill⟩ := applyAll_consume { t with consuming := .begin t.ring call } count
  rw [hleast count hcount, Prod.mk.injEq] at hmade
  simp only [applyAll, List.foldl_cons, hcalled]
  exact ⟨hmade.2, hmade.1, hstill⟩

end Traffic

end TimestampRelay
