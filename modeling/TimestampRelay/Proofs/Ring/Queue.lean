/-
A ring answers calls as a bounded queue does, whatever calls came before, wherever its cursors started,
and whatever the parties remember of each other's cursors. Its published cursors have moved on by the
number of items pushed and popped.
-/
import TimestampRelay.Proofs.Ring.Fifo
import TimestampRelay.Ring.Queue

namespace TimestampRelay

theorem Queue.capacity_performAll {α : Type} (q : Queue α) (calls : List (Ring.Call α)) :
    (q.performAll calls).2.capacity = q.capacity := by
  induction calls generalizing q with
  | nil => rfl
  | cons call calls ih =>
    refine (ih (q.perform call).2).trans ?_
    cases call with
    | producer call => cases call <;> rfl
    | consumer call => cases call <;> rfl
    | len | isEmpty => rfl

namespace Ring

variable {α : Type} {r : Ring α} {k : Cursors}

/-! ## One item is a batch of one -/

theorem Stands.looksFull_iff_freeSeen (h : r.Stands k) :
    r.producer.write - r.producer.cachedRead = r.capacity.word ↔ r.freeSeen = 0 := by
  have := h.ordered
  rw [h.looksFull_iff, h.freeSeen]
  omega

theorem Stands.looksEmpty_iff_availableSeen (h : r.Stands k) :
    r.consumer.read = r.consumer.cachedWrite ↔ r.availableSeen = 0 := by
  have := h.ordered
  rw [h.looksEmpty_iff, h.availableSeen]
  omega

/-- A push of one item is a push of a batch of one. -/
theorem Stands.push_eq (h : r.Stands k) (x : α) :
    r.push x = ((r.pushAll [x]).1 != 0, (r.pushAll [x]).2) := by
  simp only [push, pushAll, h.looksFull_iff_freeSeen, h.lookAtRead.looksFull_iff_freeSeen, List.length_singleton,
    one_ne_zero, if_false, Nat.lt_one_iff]
  by_cases hfull : r.freeSeen = 0
  · simp only [if_pos hfull]
    by_cases hstill : r.lookAtRead.freeSeen = 0
    · simp [hstill]
    · have hone : min 1 r.lookAtRead.freeSeen = 1 := by omega
      simp [hstill, hone]
  · have hone : min 1 r.freeSeen = 1 := by omega
    simp [hfull, hone]

/-- A pop of one item is a pop of a batch of up to one. -/
theorem Stands.pop_eq (h : r.Stands k) : r.pop = ((r.popUpTo 1).1.head?, (r.popUpTo 1).2) := by
  have hhead : ∀ s : Ring α, (s.itemsFrom s.consumer.read 1).head? = some (s.item s.consumer.read) := by
    intro s
    simp [itemsFrom]
  simp only [pop, popUpTo, h.looksEmpty_iff_availableSeen, h.lookAtWrite.looksEmpty_iff_availableSeen,
    one_ne_zero, if_false, Nat.lt_one_iff]
  by_cases hempty : r.availableSeen = 0
  · simp only [if_pos hempty]
    by_cases hstill : r.lookAtWrite.availableSeen = 0
    · simp [hstill]
    · have hone : min 1 r.lookAtWrite.availableSeen = 1 := by omega
      simp [hstill, hone, hhead]
  · have hone : min 1 r.availableSeen = 1 := by omega
    simp [hempty, hone, hhead]

/-- A look for room finds the room there is. -/
theorem AtRest.freeSlots (h : r.AtRest) :
    r.freeSlots.1 = r.room ∧ r.freeSlots.2.AtRest ∧ r.freeSlots.2.toList = r.toList ∧
      r.freeSlots.2.capacity = r.capacity := by
  obtain ⟨k, hk⟩ := h
  refine ⟨?_, ⟨_, hk.lookAtRead⟩, rfl, rfl⟩
  show r.lookAtRead.freeSeen = r.capacity.slots - r.toList.length
  rw [hk.lookAtRead.freeSeen, hk.length_toList]
  show r.capacity.slots - (k.ownWrite - k.read) = _
  rw [hk.ownWrite_eq]

/-! ## The published cursors -/

theorem AtRest.write_eq (h : r.AtRest) : r.producer.write = r.write := by
  obtain ⟨k, hk⟩ := h
  rw [hk.ownWrite, hk.write, hk.ownWrite_eq]

theorem AtRest.read_eq (h : r.AtRest) : r.consumer.read = r.read := by
  obtain ⟨k, hk⟩ := h
  rw [hk.ownRead, hk.read, hk.ownRead_eq]

/-- A push moves the write cursor on by the number of items pushed, and the read cursor not at all. -/
theorem AtRest.cursors_pushAll (h : r.AtRest) (items : List α) :
    (r.pushAll items).2.write = r.write + .ofNat (r.pushAll items).1 ∧ (r.pushAll items).2.read = r.read := by
  have hzero : r.write = r.write + UInt64.ofNat 0 := (UInt64.add_zero _).symm
  unfold Ring.pushAll
  by_cases hn : items.length = 0
  · simp only [if_pos hn, and_true]
    exact hzero
  · -- A look changes neither published cursor nor the producer's own.
    have hlook : ∀ s : Ring α, s = r ∨ s = r.lookAtRead →
        s.write = r.write ∧ s.read = r.read ∧ s.producer.write = r.write := by
      rintro s (rfl | rfl) <;> exact ⟨rfl, rfl, h.write_eq⟩
    obtain ⟨hwrite, hread, hown⟩ := hlook (if r.freeSeen < items.length then r.lookAtRead else r) (by
      split <;> simp)
    simp only [if_neg hn]
    generalize (if r.freeSeen < items.length then r.lookAtRead else r) = s at hwrite hread hown ⊢
    split
    · exact ⟨hwrite.trans hzero, hread⟩
    · refine ⟨?_, hread⟩
      show s.producer.write + UInt64.ofNat (items.take _).length = _
      rw [hown, List.length_take]
      congr 2
      omega

/-- A pop moves the read cursor on by the number of items popped, and the write cursor not at all. -/
theorem AtRest.cursors_popUpTo (h : r.AtRest) (n : Nat) :
    (r.popUpTo n).2.read = r.read + .ofNat (r.popUpTo n).1.length ∧ (r.popUpTo n).2.write = r.write := by
  have hzero : r.read = r.read + UInt64.ofNat 0 := (UInt64.add_zero _).symm
  unfold Ring.popUpTo
  by_cases hn : n = 0
  · simp only [if_pos hn, and_true]
    exact hzero
  · have hlook : ∀ s : Ring α, s = r ∨ s = r.lookAtWrite →
        s.read = r.read ∧ s.write = r.write ∧ s.consumer.read = r.read := by
      rintro s (rfl | rfl) <;> exact ⟨rfl, rfl, h.read_eq⟩
    obtain ⟨hread, hwrite, hown⟩ := hlook (if r.availableSeen < n then r.lookAtWrite else r) (by
      split <;> simp)
    simp only [if_neg hn]
    generalize (if r.availableSeen < n then r.lookAtWrite else r) = s at hread hwrite hown ⊢
    split
    · exact ⟨hread.trans hzero, hwrite⟩
    · refine ⟨?_, hwrite⟩
      show s.consumer.read + UInt64.ofNat _ = _
      rw [hown, itemsFrom, List.length_map, List.length_range]

/-! ## Calls -/

namespace Answer

/-- How many items the call pushed that was answered like this. -/
def pushed : Answer α → Nat
  | .producer (.accepted ok) => ok.toNat
  | .producer (.pushed count) => count
  | _ => 0

/-- How many items the call popped that was answered like this. -/
def popped : Answer α → Nat
  | .consumer (.item x) => x.toList.length
  | .consumer (.slice count _) => count
  | _ => 0

end Answer

/-- A ring between operations and the queue that it is, with so many items pushed and popped since its
cursors stood at `start`. -/
structure Mirrors (r : Ring α) (q : Queue α) (start : UInt64) (pushed popped : Nat) : Prop where
  atRest : r.AtRest
  items : r.toList = q.items
  capacity : r.capacity.slots = q.capacity
  write : r.write = start + .ofNat pushed
  read : r.read = start + .ofNat popped

variable {q : Queue α} {start : UInt64} {m n : Nat}

namespace Mirrors

theorem startingAt [Inhabited α] (c : Capacity) (start : UInt64) :
    (startingAt c start : Ring α).Mirrors ⟨c.slots, []⟩ start 0 0 where
  atRest := startingAt_atRest c start
  items := toList_startingAt c start
  capacity := rfl
  write := (UInt64.add_zero _).symm
  read := (UInt64.add_zero _).symm

theorem room (h : r.Mirrors q start m n) : r.room = q.free := by
  rw [Ring.room, Queue.free, h.items, h.capacity]

/-- A call that changes no item and no cursor. -/
theorem look (h : r.Mirrors q start m n) {s : Ring α} (hrest : s.AtRest) (hlist : s.toList = r.toList)
    (hcap : s.capacity = r.capacity) (hwrite : s.write = r.write) (hread : s.read = r.read) :
    s.Mirrors q start m n where
  atRest := hrest
  items := hlist.trans h.items
  capacity := hcap ▸ h.capacity
  write := hwrite.trans h.write
  read := hread.trans h.read

theorem pushAll (h : r.Mirrors q start m n) (items : List α) :
    (r.pushAll items).1 = min items.length q.free ∧
      (r.pushAll items).2.Mirrors (q.append items) start (m + (r.pushAll items).1) n := by
  obtain ⟨hcount, hrest, hlist, hcap⟩ := h.atRest.pushAll items
  obtain ⟨hwrite, hread⟩ := h.atRest.cursors_pushAll items
  rw [h.room] at hcount hlist
  refine ⟨hcount, hrest, ?_, hcap ▸ h.capacity, ?_, hread.trans h.read⟩
  · rw [hlist, h.items]
    rfl
  · rw [hwrite, h.write, UInt64.ofNat_add, UInt64.add_assoc]

theorem popUpTo (h : r.Mirrors q start m n) (count : Nat) :
    (r.popUpTo count).1 = q.items.take count ∧
      (r.popUpTo count).2.Mirrors (q.drop count) start m (n + (r.popUpTo count).1.length) := by
  obtain ⟨htake, hrest, hdrop, hcap⟩ := h.atRest.popUpTo count
  obtain ⟨hread, hwrite⟩ := h.atRest.cursors_popUpTo count
  rw [h.items] at htake hdrop
  refine ⟨htake, hrest, hdrop, hcap ▸ h.capacity, hwrite.trans h.write, ?_⟩
  rw [hread, h.read, UInt64.ofNat_add, UInt64.add_assoc]

theorem produce [Inhabited α] (h : r.Mirrors q start m n) (call : Producer.Call α) :
    (r.produce call).1 = (q.produce call).1 ∧
      (r.produce call).2.Mirrors (q.produce call).2 start
        (m + (Answer.producer (r.produce call).1 : Answer α).pushed) n := by
  cases call with
  | push item =>
    obtain ⟨k, hk⟩ := h.atRest
    obtain ⟨hcount, hnext⟩ := h.pushAll [item]
    rw [List.length_singleton] at hcount
    have hone : ((r.pushAll [item]).1 != 0).toNat = (r.pushAll [item]).1 := by
      rw [hcount]
      cases q.free <;> rfl
    have haccepted : ((r.pushAll [item]).1 != 0) = decide (0 < q.free) := by
      rw [hcount]
      cases q.free <;> rfl
    simp only [Ring.produce, Queue.produce, hk.push_eq, Answer.pushed, hone]
    exact ⟨congrArg Producer.Answer.accepted haccepted, hnext⟩
  | pushAll items =>
    obtain ⟨hcount, hnext⟩ := h.pushAll items
    exact ⟨congrArg Producer.Answer.pushed hcount, hnext⟩
  | freeSlots =>
    obtain ⟨hcount, hrest, hlist, hcap⟩ := h.atRest.freeSlots
    exact ⟨congrArg Producer.Answer.free (hcount.trans h.room), h.look hrest hlist hcap rfl rfl⟩
  | prefault =>
    obtain ⟨hrest, hlist, hcap⟩ := h.atRest.prefault
    exact ⟨rfl, h.look hrest hlist hcap rfl rfl⟩

theorem consume (h : r.Mirrors q start m n) (call : Consumer.Call α) :
    (r.consume call).1 = (q.consume call).1 ∧
      (r.consume call).2.Mirrors (q.consume call).2 start m (n + (Answer.consumer (r.consume call).1).popped) := by
  cases call with
  | pop =>
    obtain ⟨k, hk⟩ := h.atRest
    obtain ⟨htake, hnext⟩ := h.popUpTo 1
    have hone : (r.popUpTo 1).1.head?.toList.length = (r.popUpTo 1).1.length := by
      rw [htake]
      cases q.items <;> rfl
    have holdest : (r.popUpTo 1).1.head? = q.items.head? := by
      rw [htake]
      cases q.items <;> rfl
    simp only [Ring.consume, Queue.consume, hk.pop_eq, Answer.popped, hone]
    exact ⟨congrArg Consumer.Answer.item holdest, hnext⟩
  | popInto slice =>
    obtain ⟨htake, hnext⟩ := h.popUpTo slice.length
    have hlen : (r.popUpTo slice.length).1.length = min slice.length q.items.length := by
      rw [htake, List.length_take]
    rw [List.take_eq_take_min] at htake
    refine ⟨?_, ?_⟩
    · show Consumer.Answer.slice (r.popUpTo slice.length).1.length
        ((r.popUpTo slice.length).1 ++ slice.drop (r.popUpTo slice.length).1.length) = _
      rw [hlen, htake]
      rfl
    · have hdrop : q.drop slice.length = q.drop (min slice.length q.items.length) := by
        rw [Queue.drop, Queue.drop, ← List.drop_eq_drop_min]
      rw [hdrop] at hnext
      exact hnext
  | available =>
    obtain ⟨hcount, hrest, hlist, hcap⟩ := h.atRest.available
    rw [h.items] at hcount
    exact ⟨congrArg Consumer.Answer.available hcount, h.look hrest hlist hcap rfl rfl⟩
  | exhausted =>
    obtain ⟨hempty, hrest, hlist, hcap⟩ := h.atRest.exhausted
    rw [h.items] at hempty
    exact ⟨congrArg Consumer.Answer.exhausted hempty, h.look hrest hlist hcap rfl rfl⟩

/-- One call: the ring answers as the queue does, and goes on as the queue goes on. -/
theorem perform [Inhabited α] (h : r.Mirrors q start m n) (call : Call α) :
    (r.perform call).1 = (q.perform call).1 ∧
      (r.perform call).2.Mirrors (q.perform call).2 start (m + (r.perform call).1.pushed)
        (n + (r.perform call).1.popped) := by
  have hlen : r.len = q.items.length := by rw [h.atRest.len_eq, h.items]
  cases call with
  | producer call =>
    obtain ⟨hanswer, hnext⟩ := h.produce call
    refine ⟨congrArg Answer.producer hanswer, ?_⟩
    cases call <;> exact hnext
  | consumer call =>
    obtain ⟨hanswer, hnext⟩ := h.consume call
    refine ⟨congrArg Answer.consumer hanswer, ?_⟩
    cases call <;> exact hnext
  | len => exact ⟨congrArg Answer.len hlen, h⟩
  | isEmpty =>
    refine ⟨congrArg Answer.isEmpty ?_, h⟩
    rw [isEmpty, hlen]
    cases q.items <;> rfl

theorem performAll [Inhabited α] (h : r.Mirrors q start m n) (calls : List (Call α)) :
    (r.performAll calls).1 = (q.performAll calls).1 ∧
      (r.performAll calls).2.Mirrors (q.performAll calls).2 start
        (m + ((r.performAll calls).1.map Answer.pushed).sum)
        (n + ((r.performAll calls).1.map Answer.popped).sum) := by
  induction calls generalizing r q m n with
  | nil => exact ⟨rfl, h⟩
  | cons call calls ih =>
    obtain ⟨hanswer, hnext⟩ := h.perform call
    obtain ⟨hanswers, hlast⟩ := ih hnext
    refine ⟨congrArg₂ List.cons hanswer hanswers, ?_⟩
    simp only [Ring.performAll, Queue.performAll, List.map_cons, List.sum_cons, ← Nat.add_assoc]
    exact hlast

end Mirrors

/-- Whatever calls are made, a ring whose cursors all started at the same place gives every answer that
a bounded queue of its capacity gives. It holds the items that the queue holds, which are never more
than its capacity, and its published cursors have moved on by the number of items pushed and popped. -/
theorem answers_eq_queue [Inhabited α] (c : Capacity) (start : UInt64) (calls : List (Call α)) :
    let (answers, r) := (startingAt c start : Ring α).performAll calls
    let (expected, q) := (⟨c.slots, []⟩ : Queue α).performAll calls
    answers = expected ∧ r.toList = q.items ∧ q.items.length ≤ c.slots ∧
      r.write = start + .ofNat (answers.map Answer.pushed).sum ∧
      r.read = start + .ofNat (answers.map Answer.popped).sum := by
  obtain ⟨hanswers, hlast⟩ := (Mirrors.startingAt (α := α) c start).performAll calls
  have hle := hlast.atRest.length_toList_le
  rw [hlast.items, hlast.capacity, Queue.capacity_performAll] at hle
  have hwrite := hlast.write
  have hread := hlast.read
  rw [Nat.zero_add] at hwrite hread
  exact ⟨hanswers, hlast.items, hle, hwrite, hread⟩

end Ring

end TimestampRelay
