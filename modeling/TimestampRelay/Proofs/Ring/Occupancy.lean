/-
What it is worth to be told how full a ring in use is. What a party has seen of the other's cursor only gets better,
so the slots that were free for a producer, and the items that were there for a consumer, suffice for that many more
whatever the other party does. An onlooker, whose two looks may lie far apart, is never told of too few items.
-/
import TimestampRelay.Proofs.Ring.Histories

namespace TimestampRelay

variable {α : Type} {r s : Ring α} {k l : Cursors}

/-! ## Calls and moves -/

def Producer.Call.isPush : Producer.Call α → Bool
  | .push _ | .pushAll _ => true
  | .freeSlots | .prefault => false

def Consumer.Call.isPop : Consumer.Call α → Bool
  | .pop | .popInto _ => true
  | .available | .exhausted => false

def Traffic.Move.isProduce : Traffic.Move α → Bool
  | .produce => true
  | _ => false

def Traffic.Move.isConsume : Traffic.Move α → Bool
  | .consume => true
  | _ => false

/-! ## What has been seen -/

/-- A producer that sees what it saw, or the read cursor as it is now, has not lost sight of anything. -/
theorem Ring.Stands.cachedRead_mono (h : r.Stands k) (h' : s.Stands l) (hread : k.read ≤ l.read)
    (hseen : s.producer.cachedRead = r.producer.cachedRead ∨ s.producer.cachedRead = s.read) :
    k.cachedRead ≤ l.cachedRead := by
  have := h.ordered
  have := h'.ordered
  by_contra hlt
  rcases hseen with hsame | hlook
  · -- Both lie within one capacity before the read cursor, where no two cursors are stored alike.
    rw [h'.cachedRead, h.cachedRead, ofNat_eq_ofNat_iff (by omega) (h'.fits (by omega) le_rfl)] at hsame
    omega
  · rw [h'.cachedRead, h'.read, ofNat_eq_ofNat_iff h'.cachedRead_le (h'.fits (by omega) le_rfl)] at hlook
    omega

/-- The same for a consumer and the write cursor. -/
theorem Ring.Stands.cachedWrite_mono (h : r.Stands k) (h' : s.Stands l) (hwrite : k.write ≤ l.write)
    (hseen : s.consumer.cachedWrite = r.consumer.cachedWrite ∨ s.consumer.cachedWrite = s.write) :
    k.cachedWrite ≤ l.cachedWrite := by
  have := h.ordered
  have := h'.ordered
  by_contra hlt
  rcases hseen with hsame | hlook
  · rw [h'.cachedWrite, h.cachedWrite, ofNat_eq_ofNat_iff (by omega) (h'.fits (by omega) (by omega))] at hsame
    omega
  · rw [h'.cachedWrite, h'.write, ofNat_eq_ofNat_iff h'.cachedWrite_le (h'.fits (by omega) (by omega))] at hlook
    omega

/-- What an access of the producer leaves as it is: all that is the consumer's, and its own view unless it looks. -/
theorem Producing.step_keeps [Inhabited α] (r : Ring α) (p : Producing α) :
    (p.step r).1.capacity = r.capacity ∧ (p.step r).1.consumer = r.consumer ∧
      ((p.step r).1.producer.cachedRead = r.producer.cachedRead ∨
        (p.step r).1.producer.cachedRead = (p.step r).1.read) := by
  match p with
  | .look _ => exact ⟨rfl, rfl, .inr rfl⟩
  | .rest _ | .write _ [] _ | .write _ [_] _ | .write _ (_ :: _ :: _) _ | .publish _ _ | .touch _ _ =>
    exact ⟨rfl, rfl, .inl rfl⟩

theorem Consuming.step_keeps (r : Ring α) (c : Consuming α) :
    (c.step r).1.capacity = r.capacity ∧ (c.step r).1.producer = r.producer ∧
      ((c.step r).1.consumer.cachedWrite = r.consumer.cachedWrite ∨
        (c.step r).1.consumer.cachedWrite = (c.step r).1.write) := by
  cases c with
  | look call => exact ⟨rfl, rfl, .inr rfl⟩
  | rest answer | publish call got => exact ⟨rfl, rfl, .inl rfl⟩
  | read call left got =>
    simp only [step]
    split
    · exact ⟨rfl, rfl, .inl rfl⟩
    · exact ⟨rfl, rfl, .inl rfl⟩

namespace Traffic

variable {origin : Nat} {t u : Traffic α}

theorem Sound.write_eq (h : t.Sound origin k) : k.write = origin + t.accepted.length := by
  have := h.stands.ordered
  rw [h.accepted_eq, List.length_append, h.stands.length_toList, ← Nat.add_assoc, ← h.read_eq]
  omega

/-- What a later moment of traffic has in common with an earlier one, and what has only grown. -/
structure Onward (t u : Traffic α) (k l : Cursors) : Prop where
  capacity : u.ring.capacity = t.ring.capacity
  accepted_le : t.accepted.length ≤ u.accepted.length
  taken_le : t.taken.length ≤ u.taken.length
  cachedRead_le : k.cachedRead ≤ l.cachedRead
  cachedWrite_le : k.cachedWrite ≤ l.cachedWrite

section

variable [Inhabited α]

theorem length_le_apply (t : Traffic α) (move : Move α) :
    t.accepted.length ≤ (t.apply move).accepted.length ∧ t.taken.length ≤ (t.apply move).taken.length := by
  cases move with
  | callProducer call => simp only [apply]; split <;> exact ⟨le_rfl, le_rfl⟩
  | callConsumer call => simp only [apply]; split <;> exact ⟨le_rfl, le_rfl⟩
  | glance => exact ⟨le_rfl, le_rfl⟩
  | produce =>
    refine ⟨?_, le_rfl⟩
    simp only [apply, produce]
    split
    · rw [List.length_append]
      exact Nat.le_add_right _ _
    · exact le_rfl
  | consume =>
    refine ⟨le_rfl, ?_⟩
    simp only [apply, consume]
    split
    · rw [List.length_append]
      exact Nat.le_add_right _ _
    · exact le_rfl

/-- A move leaves the capacity as it is, and each party's view of the other unless it looks. -/
theorem ring_apply (t : Traffic α) (move : Move α) :
    (t.apply move).ring.capacity = t.ring.capacity ∧
      ((t.apply move).ring.producer.cachedRead = t.ring.producer.cachedRead ∨
        (t.apply move).ring.producer.cachedRead = (t.apply move).ring.read) ∧
      ((t.apply move).ring.consumer.cachedWrite = t.ring.consumer.cachedWrite ∨
        (t.apply move).ring.consumer.cachedWrite = (t.apply move).ring.write) := by
  cases move with
  | callProducer call => simp only [apply]; split <;> exact ⟨rfl, .inl rfl, .inl rfl⟩
  | callConsumer call => simp only [apply]; split <;> exact ⟨rfl, .inl rfl, .inl rfl⟩
  | glance => exact ⟨rfl, .inl rfl, .inl rfl⟩
  | produce =>
    obtain ⟨hcap, hconsumer, hseen⟩ := Producing.step_keeps t.ring t.producing
    exact ⟨hcap, hseen, .inl (congrArg Consumer.cachedWrite hconsumer)⟩
  | consume =>
    obtain ⟨hcap, hproducer, hseen⟩ := Consuming.step_keeps t.ring t.consuming
    exact ⟨hcap, .inl (congrArg Producer.cachedRead hproducer), hseen⟩

theorem Sound.onward_apply (h : t.Sound origin k) (move : Move α) :
    ∃ l, (t.apply move).Sound origin l ∧ t.Onward (t.apply move) k l := by
  obtain ⟨l, hl⟩ := h.apply move
  obtain ⟨haccepted, htaken⟩ := t.length_le_apply move
  obtain ⟨hcap, hread, hwrite⟩ := t.ring_apply move
  have hread_le : k.read ≤ l.read := by
    rw [h.read_eq, hl.read_eq]
    exact Nat.add_le_add_left htaken origin
  have hwrite_le : k.write ≤ l.write := by
    rw [h.write_eq, hl.write_eq]
    exact Nat.add_le_add_left haccepted origin
  exact ⟨l, hl, hcap, haccepted, htaken, h.stands.cachedRead_mono hl.stands hread_le hread,
    h.stands.cachedWrite_mono hl.stands hwrite_le hwrite⟩

theorem Sound.onward (h : t.Sound origin k) (moves : List (Move α)) :
    ∃ l, (t.applyAll moves).Sound origin l ∧ t.Onward (t.applyAll moves) k l := by
  induction moves using List.reverseRecOn with
  | nil => exact ⟨k, h, rfl, le_rfl, le_rfl, le_rfl, le_rfl⟩
  | append_singleton moves move ih =>
    obtain ⟨l, hl, hbefore⟩ := ih
    obtain ⟨l', hl', hlast⟩ := hl.onward_apply move
    rw [applyAll_concat]
    exact ⟨l', hl', hlast.capacity.trans hbefore.capacity, hbefore.accepted_le.trans hlast.accepted_le,
      hbefore.taken_le.trans hlast.taken_le, hbefore.cachedRead_le.trans hlast.cachedRead_le,
      hbefore.cachedWrite_le.trans hlast.cachedWrite_le⟩

end

end Traffic

/-! ## Free slots -/

namespace Producing

/-- What a producer that answers how many slots are free goes by, and that it writes only to push. -/
def Truthful (r : Ring α) : Producing α → Prop
  | .rest answer => ∀ count, answer = some (.free count) → count = r.freeSeen
  | .look _ | .touch _ _ => True
  | .write call _ _ | .publish call _ => call.isPush = true

theorem Truthful.frame {p : Producing α} (h : p.Truthful r) (hcap : s.capacity = r.capacity)
    (hproducer : s.producer = r.producer) : p.Truthful s := by
  have hfree : s.freeSeen = r.freeSeen := by rw [Ring.freeSeen, Ring.freeSeen, hcap, hproducer]
  cases p with
  | rest answer => exact fun count hanswer => (h count hanswer).trans hfree.symm
  | look _ | touch _ _ | write _ _ _ | publish _ _ => exact h

theorem truthful_answer {call : Producer.Call α} (hpush : call.isPush) (count : Nat) :
    (Producing.rest (some (answer call count)) : Producing α).Truthful r := by
  intro free hfree
  cases call with
  | push _ | pushAll _ => cases hfree
  | freeSlots | «prefault» => cases hpush

theorem begin_truthful (r : Ring α) (call : Producer.Call α) : (begin r call).Truthful r := by
  cases call with
  | push item =>
    simp only [begin]
    split
    · trivial
    · rfl
  | pushAll items =>
    simp only [begin]
    split
    · exact truthful_answer rfl 0
    · split
      · trivial
      · rfl
  | freeSlots | «prefault» => trivial

theorem afterLook_truthful (r : Ring α) (call : Producer.Call α) : (afterLook r call).Truthful r := by
  cases call with
  | push item =>
    simp only [afterLook]
    split
    · exact truthful_answer rfl 0
    · rfl
  | pushAll items =>
    simp only [afterLook, beginWriting]
    split
    · exact truthful_answer rfl 0
    · rfl
  | freeSlots =>
    rintro count ⟨⟩
    rfl
  | «prefault» =>
    simp only [afterLook]
    split
    · rintro count ⟨⟩
    · trivial

theorem Truthful.step [Inhabited α] {p : Producing α} (h : p.Truthful r) : (p.step r).2.Truthful (p.step r).1 := by
  match p with
  | .rest _ => exact h
  | .look call => exact afterLook_truthful _ call
  | .write _ [] _ | .write _ [_] _ | .write _ (_ :: _ :: _) _ => exact h
  | .publish call written => exact truthful_answer h _
  | .touch left touched =>
    simp only [Producing.step]
    split
    · rintro count ⟨⟩
    · trivial

/-- A push that has room, with so many accesses due until all of its items are accepted. `base` is what was accepted
before. -/
def Completes (call : Producer.Call α) (base accepted : List α) (due : Nat) : Producing α → Prop
  | .rest last => last = some (answer call call.items.length) ∧ accepted = base ++ call.items ∧ due = 0
  | .look _ | .touch _ _ => False
  | .write c left written => c = call ∧ accepted = base ∧ left ≠ [] ∧ written ++ left = call.items ∧
      due = left.length + 1
  | .publish c written => c = call ∧ accepted = base ∧ written = call.items ∧ due = 1

/-- A push with room for its items, as far as the producer remembers, needs no look. -/
theorem begin_completes (h : r.Stands k) {call : Producer.Call α} (hpush : call.isPush)
    (hroom : k.ownWrite + call.items.length ≤ k.cachedRead + r.capacity.slots) (base : List α) :
    ∃ due ≤ call.items.length + 1, (begin r call).Completes call base base due := by
  have := h.ordered
  cases call with
  | push item =>
    have hone : k.ownWrite + 1 ≤ k.cachedRead + r.capacity.slots := hroom
    have hnotFull : ¬ r.producer.write - r.producer.cachedRead = r.capacity.word := by
      rw [h.looksFull_iff]
      omega
    simp only [begin, if_neg hnotFull]
    exact ⟨2, le_rfl, rfl, rfl, by simp, rfl, rfl⟩
  | pushAll items =>
    have hall : k.ownWrite + items.length ≤ k.cachedRead + r.capacity.slots := hroom
    have henough : ¬ r.freeSeen < items.length := by
      rw [h.freeSeen]
      omega
    simp only [begin, if_neg henough]
    split
    · rename_i hnil
      obtain rfl := List.isEmpty_iff.1 hnil
      exact ⟨0, Nat.zero_le _, rfl, (List.append_nil base).symm, rfl⟩
    · rename_i hne
      exact ⟨items.length + 1, le_rfl, rfl, rfl, by simpa using hne, rfl, rfl⟩
  | freeSlots | «prefault» => cases hpush

end Producing

namespace Traffic

variable {origin : Nat} {t u : Traffic α}

/-- Slots that were free are not taken by anyone but the producer. -/
theorem Sound.room_of_free (h : t.Sound origin k) (htruthful : t.producing.Truthful t.ring) {count : Nat}
    (hfree : t.producing = .rest (some (.free count))) (hu : u.Sound origin l) (honward : t.Onward u k l)
    {last : Option Producer.Answer} (hlast : u.producing = .rest last) {n : Nat}
    (hwithin : u.accepted.length + n ≤ t.accepted.length + count) :
    l.ownWrite + n ≤ l.cachedRead + u.ring.capacity.slots := by
  have hordered := h.stands.ordered
  have hseen := honward.cachedRead_le
  have hproducing := h.producing
  have hproducing' := hu.producing
  rw [hfree] at htruthful hproducing
  rw [hlast] at hproducing'
  have hcount := htruthful count rfl
  have hown : k.ownWrite = origin + t.accepted.length := hproducing.trans h.write_eq
  have hown' : l.ownWrite = origin + u.accepted.length := hproducing'.trans hu.write_eq
  -- The room told of ends a capacity behind what was seen of the read cursor, which has not gone back since.
  rw [h.stands.freeSeen] at hcount
  rw [honward.capacity]
  omega

section

variable [Inhabited α]

theorem produce_completes {call : Producer.Call α} {base : List α} {due : Nat}
    (h : t.producing.Completes call base t.accepted due) :
    t.produce.producing.Completes call base t.produce.accepted (due - 1) := by
  cases hphase : t.producing with
  | look c => rw [hphase] at h; exact h.elim
  | touch left touched => rw [hphase] at h; exact h.elim
  | rest last =>
    rw [produce_of_rest hphase]
    rw [hphase] at h ⊢
    obtain ⟨hlast, hacc, rfl⟩ := h
    exact ⟨hlast, hacc, rfl⟩
  | write c left written =>
    rw [hphase] at h
    obtain ⟨rfl, hacc, hne, hitems, rfl⟩ := h
    match left, hne with
    | [x], _ =>
      rw [produce_of_write_last hphase]
      exact ⟨rfl, hacc, hitems, rfl⟩
    | x :: y :: left, _ =>
      rw [produce_of_write_more hphase]
      rw [List.append_cons] at hitems
      exact ⟨rfl, hacc, by simp, hitems, rfl⟩
  | publish c written =>
    rw [hphase] at h
    obtain ⟨rfl, hacc, hitems, rfl⟩ := h
    rw [produce_of_publish hphase, hacc, hitems]
    exact ⟨rfl, rfl, rfl⟩

/-- Each access of the producer is one of those due, and nothing else matters. -/
theorem applyAll_completes {call : Producer.Call α} {base : List α} {due : Nat}
    (h : t.producing.Completes call base t.accepted due) {moves : List (Move α)}
    (hcalls : ∀ other, .callProducer other ∉ moves) :
    (t.applyAll moves).producing.Completes call base (t.applyAll moves).accepted
      (due - moves.countP Move.isProduce) := by
  -- By the first move: an access of the producer takes one from those due, all others leave the producer alone.
  induction moves generalizing t due with
  | nil => exact h
  | cons move moves ih =>
    have hmove : ∀ other, move ≠ .callProducer other := fun other heq => hcalls other (by simp [heq])
    have hrest : ∀ other, .callProducer other ∉ moves := fun other hmem => hcalls other (by simp [hmem])
    by_cases hproduce : move = .produce
    · subst hproduce
      have hcount : (Move.produce :: moves).countP Move.isProduce = moves.countP Move.isProduce + 1 :=
        List.countP_cons_of_pos rfl
      rw [hcount, Nat.add_comm, ← Nat.sub_sub]
      exact ih (produce_completes h) hrest
    · have hnot : ¬ Move.isProduce move := by cases move <;> simp_all [Move.isProduce]
      obtain ⟨hphase, hacc⟩ := t.producing_apply hmove hproduce
      rw [List.countP_cons_of_neg hnot]
      refine ih ?_ hrest
      rw [hphase, hacc]
      exact h

theorem truthful_apply (h : t.producing.Truthful t.ring) (move : Move α) :
    (t.apply move).producing.Truthful (t.apply move).ring := by
  cases move with
  | callProducer call =>
    simp only [apply]
    split
    · exact Producing.begin_truthful t.ring call
    · exact h
  | callConsumer call => simp only [apply]; split <;> exact h
  | glance => exact h
  | produce => exact h.step
  | consume =>
    obtain ⟨hcap, hproducer, -⟩ := Consuming.step_keeps t.ring t.consuming
    exact h.frame hcap hproducer

theorem truthful_applyAll (h : t.producing.Truthful t.ring) (moves : List (Move α)) :
    (t.applyAll moves).producing.Truthful (t.applyAll moves).ring := by
  induction moves generalizing t with
  | nil => exact h
  | cons move moves ih => exact ih (truthful_apply h move)

/-- After some moves the producer, at rest, is asked for a push and for nothing else later. With the items of this push
no more than `count` are accepted since. -/
structure NextPush (t : Traffic α) (count : Nat) (middle : List (Move α)) (call : Producer.Call α)
    (later : List (Move α)) : Prop where
  isPush : call.isPush
  atRest : ∃ last, (t.applyAll middle).producing = .rest last
  within : (t.applyAll middle).accepted.length + call.items.length ≤ t.accepted.length + count
  alone : ∀ other, .callProducer other ∉ later

/-- A push goes through: all of its items are accepted and the answer says so, or the producer is not through with it,
because it was given no more accesses than there are items. -/
def PushesAll (u : Traffic α) (call : Producer.Call α) (later : List (Move α)) : Prop :=
  let v := (u.apply (.callProducer call)).applyAll later
  v.producing = .rest (some (Producing.answer call call.items.length)) ∧ v.accepted = u.accepted ++ call.items ∨
    (∀ last, v.producing ≠ .rest last) ∧ later.countP Move.isProduce ≤ call.items.length

theorem pushesAll_of_completes {call : Producer.Call α} {later : List (Move α)} {due : Nat}
    (hdue : due ≤ call.items.length + 1)
    (h : ((u.apply (.callProducer call)).applyAll later).producing.Completes call u.accepted
      ((u.apply (.callProducer call)).applyAll later).accepted (due - later.countP Move.isProduce)) :
    u.PushesAll call later := by
  simp only [PushesAll]
  generalize (u.apply (.callProducer call)).applyAll later = v at h ⊢
  cases hphase : v.producing with
  | rest last =>
    rw [hphase] at h
    obtain ⟨rfl, hacc, -⟩ := h
    exact .inl ⟨rfl, hacc⟩
  | look c => rw [hphase] at h; exact h.elim
  | touch left touched => rw [hphase] at h; exact h.elim
  | write c left written =>
    rw [hphase] at h
    obtain ⟨-, -, -, -, hleft⟩ := h
    exact .inr ⟨nofun, by omega⟩
  | publish c written =>
    rw [hphase] at h
    obtain ⟨-, -, -, hleft⟩ := h
    exact .inr ⟨nofun, by omega⟩

/-- As many items as there were free slots go through. -/
theorem Sound.pushesAll (h : t.Sound origin k) (htruthful : t.producing.Truthful t.ring) {count : Nat}
    (hfree : t.producing = .rest (some (.free count))) {middle later : List (Move α)} {call : Producer.Call α}
    (hnext : t.NextPush count middle call later) : (t.applyAll middle).PushesAll call later := by
  obtain ⟨hpush, ⟨last, hlast⟩, hwithin, halone⟩ := hnext
  obtain ⟨l, hl, honward⟩ := h.onward middle
  have hroom := h.room_of_free htruthful hfree hl honward hlast hwithin
  have hcalled : (t.applyAll middle).apply (.callProducer call) =
      { t.applyAll middle with producing := .begin (t.applyAll middle).ring call } := by
    simp only [Traffic.apply, hlast]
  obtain ⟨due, hdue, hbegin⟩ := Producing.begin_completes hl.stands hpush hroom (t.applyAll middle).accepted
  refine pushesAll_of_completes hdue (applyAll_completes ?_ halone)
  rw [hcalled]
  exact hbegin

end

end Traffic

/-! ## Items that are there -/

namespace Consuming

/-- What a consumer that answers how many items are there goes by, and that it reads only to pop. -/
def Truthful (r : Ring α) : Consuming α → Prop
  | .rest answer => ∀ count, answer = some (.available count) → count = r.availableSeen
  | .look _ => True
  | .read call _ _ | .publish call _ => call.isPop = true

theorem Truthful.frame {c : Consuming α} (h : c.Truthful r) (hconsumer : s.consumer = r.consumer) :
    c.Truthful s := by
  have havailable : s.availableSeen = r.availableSeen := by
    rw [Ring.availableSeen, Ring.availableSeen, hconsumer]
  cases c with
  | rest answer => exact fun count hanswer => (h count hanswer).trans havailable.symm
  | look _ | read _ _ _ | publish _ _ => exact h

theorem truthful_answer {call : Consumer.Call α} (hpop : call.isPop) (got : List α) (found : Nat) :
    (Consuming.rest (some (answer call got found))).Truthful r := by
  intro available havailable
  cases call with
  | pop | popInto _ => cases havailable
  | available | exhausted => cases hpop

theorem beginReading_truthful {call : Consumer.Call α} (hpop : call.isPop) (count : Nat) :
    (beginReading call count).Truthful r := by
  unfold beginReading
  split
  · exact truthful_answer hpop [] 0
  · exact hpop

theorem begin_truthful (r : Ring α) (call : Consumer.Call α) : (begin r call).Truthful r := by
  cases call with
  | pop =>
    simp only [begin]
    split
    · trivial
    · rfl
  | popInto slice =>
    simp only [begin]
    split
    · exact truthful_answer rfl [] 0
    · split
      · trivial
      · rfl
  | available | exhausted => trivial

theorem afterLook_truthful (r : Ring α) (call : Consumer.Call α) : (afterLook r call).Truthful r := by
  cases call with
  | pop => exact beginReading_truthful rfl _
  | popInto slice => exact beginReading_truthful rfl _
  | available =>
    rintro count ⟨⟩
    rfl
  | exhausted => rintro count ⟨⟩

theorem Truthful.step {c : Consuming α} (h : c.Truthful r) : (c.step r).2.Truthful (c.step r).1 := by
  cases c with
  | rest answer => exact h
  | look call => exact afterLook_truthful _ call
  | publish call got => exact truthful_answer h got 0
  | read call left got =>
    simp only [Consuming.step]
    split
    · exact h
    · exact h

/-- A pop of items that are there, with so many accesses due until all of them are handed over. `base` is what was
taken before. -/
def Completes (call : Consumer.Call α) (base taken : List α) (due : Nat) : Consuming α → Prop
  | .rest last => ∃ a, last = some a ∧ a.items.length = call.wanted ∧ taken = base ++ a.items ∧ due = 0
  | .look _ => False
  | .read c left got => c = call ∧ taken = base ∧ 0 < left ∧ got.length + left = call.wanted ∧ due = left + 1
  | .publish c got => c = call ∧ taken = base ∧ got.length = call.wanted ∧ due = 1

/-- A pop of no more items than the consumer remembers needs no look. -/
theorem begin_completes (h : r.Stands k) {call : Consumer.Call α} (hpop : call.isPop)
    (hthere : k.ownRead + call.wanted ≤ k.cachedWrite) (base : List α) :
    ∃ due ≤ call.wanted + 1, (begin r call).Completes call base base due := by
  cases call with
  | pop =>
    have hone : k.ownRead + 1 ≤ k.cachedWrite := hthere
    have hnotEmpty : ¬ r.consumer.read = r.consumer.cachedWrite := by
      rw [h.looksEmpty_iff]
      omega
    simp only [begin, if_neg hnotEmpty]
    exact ⟨2, le_rfl, rfl, rfl, Nat.one_pos, rfl, rfl⟩
  | popInto slice =>
    have hall : k.ownRead + slice.length ≤ k.cachedWrite := hthere
    have henough : ¬ r.availableSeen < slice.length := by
      rw [h.availableSeen]
      omega
    simp only [begin, if_neg henough]
    split
    · rename_i hnil
      obtain rfl := List.isEmpty_iff.1 hnil
      exact ⟨0, Nat.zero_le _, _, rfl, rfl, (List.append_nil base).symm, rfl⟩
    · rename_i hne
      have hpos : 0 < slice.length := List.length_pos_iff.2 (by simpa using hne)
      exact ⟨slice.length + 1, le_rfl, rfl, rfl, hpos, Nat.zero_add _, rfl⟩
  | available | exhausted => cases hpop

end Consuming

namespace Traffic

variable {origin : Nat} {t u : Traffic α}

/-- Items that were there are not taken by anyone but the consumer. -/
theorem Sound.there_of_available (h : t.Sound origin k) (htruthful : t.consuming.Truthful t.ring) {count : Nat}
    (havailable : t.consuming = .rest (some (.available count))) (hu : u.Sound origin l) (honward : t.Onward u k l)
    {last : Option (Consumer.Answer α)} (hlast : u.consuming = .rest last) {n : Nat}
    (hwithin : u.taken.length + n ≤ t.taken.length + count) : l.ownRead + n ≤ l.cachedWrite := by
  have hordered := h.stands.ordered
  have hseen := honward.cachedWrite_le
  have hconsuming := h.consuming
  have hconsuming' := hu.consuming
  rw [havailable] at htruthful hconsuming
  rw [hlast] at hconsuming'
  have hcount := htruthful count rfl
  have hown : k.ownRead = origin + t.taken.length := hconsuming.trans h.read_eq
  have hown' : l.ownRead = origin + u.taken.length := hconsuming'.trans hu.read_eq
  rw [h.stands.availableSeen] at hcount
  omega

theorem consume_completes {call : Consumer.Call α} {base : List α} {due : Nat}
    (h : t.consuming.Completes call base t.taken due) :
    t.consume.consuming.Completes call base t.consume.taken (due - 1) := by
  cases hphase : t.consuming with
  | look c => rw [hphase] at h; exact h.elim
  | rest last =>
    rw [consume_of_rest hphase]
    rw [hphase] at h ⊢
    obtain ⟨a, hlast, hitems, htaken, rfl⟩ := h
    exact ⟨a, hlast, hitems, htaken, rfl⟩
  | read c left got =>
    rw [hphase] at h
    obtain ⟨rfl, htaken, hpos, hwanted, rfl⟩ := h
    have hlen : (got ++ [Consuming.readSlot t.ring got.length]).length = got.length + 1 := by simp
    by_cases hlast : left ≤ 1
    · rw [consume_of_read_last hphase hlast]
      exact ⟨rfl, htaken, by omega, by omega⟩
    · rw [consume_of_read_more hphase hlast]
      exact ⟨rfl, htaken, by omega, by omega, by omega⟩
  | publish c got =>
    rw [hphase] at h
    obtain ⟨rfl, htaken, hwanted, rfl⟩ := h
    have hitems := Consuming.items_answer hwanted.le 0
    rw [consume_of_publish hphase, htaken]
    refine ⟨_, rfl, ?_, ?_, rfl⟩ <;> rw [hitems]
    exact hwanted

section

variable [Inhabited α]

/-- Each access of the consumer is one of those due, and nothing else matters. -/
theorem applyAll_consuming_completes {call : Consumer.Call α} {base : List α} {due : Nat}
    (h : t.consuming.Completes call base t.taken due) {moves : List (Move α)}
    (hcalls : ∀ other, .callConsumer other ∉ moves) :
    (t.applyAll moves).consuming.Completes call base (t.applyAll moves).taken
      (due - moves.countP Move.isConsume) := by
  -- By the first move, as for the producer.
  induction moves generalizing t due with
  | nil => exact h
  | cons move moves ih =>
    have hmove : ∀ other, move ≠ .callConsumer other := fun other heq => hcalls other (by simp [heq])
    have hrest : ∀ other, .callConsumer other ∉ moves := fun other hmem => hcalls other (by simp [hmem])
    by_cases hconsume : move = .consume
    · subst hconsume
      have hcount : (Move.consume :: moves).countP Move.isConsume = moves.countP Move.isConsume + 1 :=
        List.countP_cons_of_pos rfl
      rw [hcount, Nat.add_comm, ← Nat.sub_sub]
      exact ih (consume_completes h) hrest
    · have hnot : ¬ Move.isConsume move := by cases move <;> simp_all [Move.isConsume]
      obtain ⟨hphase, htaken⟩ := t.consuming_apply hmove hconsume
      rw [List.countP_cons_of_neg hnot]
      refine ih ?_ hrest
      rw [hphase, htaken]
      exact h

theorem consuming_truthful_apply (h : t.consuming.Truthful t.ring) (move : Move α) :
    (t.apply move).consuming.Truthful (t.apply move).ring := by
  cases move with
  | callConsumer call =>
    simp only [apply]
    split
    · exact Consuming.begin_truthful t.ring call
    · exact h
  | callProducer call => simp only [apply]; split <;> exact h
  | glance => exact h
  | consume => exact h.step
  | produce =>
    obtain ⟨-, hconsumer, -⟩ := Producing.step_keeps t.ring t.producing
    exact h.frame hconsumer

theorem consuming_truthful_applyAll (h : t.consuming.Truthful t.ring) (moves : List (Move α)) :
    (t.applyAll moves).consuming.Truthful (t.applyAll moves).ring := by
  induction moves generalizing t with
  | nil => exact h
  | cons move moves ih => exact ih (consuming_truthful_apply h move)

/-- After some moves the consumer, at rest, is asked for a pop and for nothing else later. With what this pop wants no
more than `count` items are taken since. -/
structure NextPop (t : Traffic α) (count : Nat) (middle : List (Move α)) (call : Consumer.Call α)
    (later : List (Move α)) : Prop where
  isPop : call.isPop
  atRest : ∃ last, (t.applyAll middle).consuming = .rest last
  within : (t.applyAll middle).taken.length + call.wanted ≤ t.taken.length + count
  alone : ∀ other, .callConsumer other ∉ later

/-- A pop goes through: it hands over as many items as it wanted, or the consumer is not through with it, because it was
given no more accesses than it wanted items. -/
def PopsAll (u : Traffic α) (call : Consumer.Call α) (later : List (Move α)) : Prop :=
  let v := (u.apply (.callConsumer call)).applyAll later
  (∃ answer, v.consuming = .rest (some answer) ∧ answer.items.length = call.wanted ∧
      v.taken = u.taken ++ answer.items) ∨
    (∀ last, v.consuming ≠ .rest last) ∧ later.countP Move.isConsume ≤ call.wanted

theorem popsAll_of_completes {call : Consumer.Call α} {later : List (Move α)} {due : Nat}
    (hdue : due ≤ call.wanted + 1)
    (h : ((u.apply (.callConsumer call)).applyAll later).consuming.Completes call u.taken
      ((u.apply (.callConsumer call)).applyAll later).taken (due - later.countP Move.isConsume)) :
    u.PopsAll call later := by
  simp only [PopsAll]
  generalize (u.apply (.callConsumer call)).applyAll later = v at h ⊢
  cases hphase : v.consuming with
  | rest last =>
    rw [hphase] at h
    obtain ⟨answer, rfl, hitems, htaken, -⟩ := h
    exact .inl ⟨answer, rfl, hitems, htaken⟩
  | look c => rw [hphase] at h; exact h.elim
  | read c left got =>
    rw [hphase] at h
    obtain ⟨-, -, -, -, hleft⟩ := h
    exact .inr ⟨nofun, by omega⟩
  | publish c got =>
    rw [hphase] at h
    obtain ⟨-, -, -, hleft⟩ := h
    exact .inr ⟨nofun, by omega⟩

/-- As many items as were there can be popped. -/
theorem Sound.popsAll (h : t.Sound origin k) (htruthful : t.consuming.Truthful t.ring) {count : Nat}
    (havailable : t.consuming = .rest (some (.available count))) {middle later : List (Move α)}
    {call : Consumer.Call α} (hnext : t.NextPop count middle call later) :
    (t.applyAll middle).PopsAll call later := by
  obtain ⟨hpop, ⟨last, hlast⟩, hwithin, halone⟩ := hnext
  obtain ⟨l, hl, honward⟩ := h.onward middle
  have hthere := h.there_of_available htruthful havailable hl honward hlast hwithin
  have hcalled : (t.applyAll middle).apply (.callConsumer call) =
      { t.applyAll middle with consuming := .begin (t.applyAll middle).ring call } := by
    simp only [Traffic.apply, hlast]
  obtain ⟨due, hdue, hbegin⟩ := Consuming.begin_completes hl.stands hpop hthere (t.applyAll middle).taken
  refine popsAll_of_completes hdue (applyAll_consuming_completes ?_ halone)
  rw [hcalled]
  exact hbegin

end

end Traffic

/-! ## Glances -/

theorem Capacity.slots_le (c : Capacity) : c.slots ≤ 2 ^ 63 :=
  Nat.pow_le_pow_right Nat.two_pos (Nat.le_of_lt_succ c.exponent_lt)

/-- There are never more items than slots. -/
theorem Ring.Stands.length_toList_le (h : r.Stands k) : r.toList.length ≤ r.capacity.slots := by
  have := h.ordered
  rw [h.length_toList]
  omega

namespace Traffic

variable {origin : Nat} {t u : Traffic α}

/-- What a glance shows whose look at the write cursor comes later than its look at the read cursor: the items taken
by the first look are missing from those accepted by the second. -/
theorem Sound.glance_step (h : t.Sound origin k) (hu : u.Sound origin l) (honward : t.Onward u k l)
    (hfew : u.accepted.length < t.accepted.length + 2 ^ 63 ∨ u.taken.length < t.taken.length + 2 ^ 63) :
    (Glance.readSeen t.ring.read).step u.ring =
      .over (some (min (u.accepted.length - t.taken.length) t.ring.capacity.slots)) := by
  have hordered := h.stands.ordered
  have hordered' := hu.stands.ordered
  have hslots := t.ring.capacity.slots_le
  have hsize : UInt64.size = 2 ^ 64 := rfl
  have haccepted := honward.accepted_le
  have htaken := honward.taken_le
  have hread := h.read_eq
  have hwrite := h.write_eq
  have hread' := hu.read_eq
  have hwrite' := hu.write_eq
  rw [honward.capacity] at hordered'
  have hdistance : (u.ring.write - t.ring.read).toNat = u.accepted.length - t.taken.length := by
    rw [hu.stands.write, h.stands.read, toNat_ofNat_sub_ofNat (by omega) (by omega)]
    omega
  simp only [Glance.step, hdistance, honward.capacity]

/-- A glance shows no fewer items than there are at either of its looks, and just those if nothing was pushed or popped
in between. -/
theorem Sound.glance_bounds (h : t.Sound origin k) (hu : u.Sound origin l) (honward : t.Onward u k l)
    (hfew : u.accepted.length < t.accepted.length + 2 ^ 63 ∨ u.taken.length < t.taken.length + 2 ^ 63) :
    ∃ n ≤ t.ring.capacity.slots, (Glance.readSeen t.ring.read).step u.ring = .over (some n) ∧
      t.ring.toList.length ≤ n ∧ u.ring.toList.length ≤ n ∧
      (u.accepted = t.accepted → u.taken = t.taken → n = t.ring.toList.length) := by
  have haccepted := honward.accepted_le
  have htaken := honward.taken_le
  have hfits := h.stands.length_toList_le
  have hfits' := hu.stands.length_toList_le
  have hcount := congrArg List.length h.accepted_eq
  have hcount' := congrArg List.length hu.accepted_eq
  rw [honward.capacity] at hfits'
  rw [List.length_append] at hcount hcount'
  refine ⟨_, min_le_right _ _, h.glance_step hu honward hfew, le_min (by omega) hfits, le_min (by omega) hfits',
    fun hsame _ => ?_⟩
  rw [hsame]
  omega

section

variable [Inhabited α]

theorem glance_apply (t : Traffic α) {move : Move α} (hne : move ≠ .glance) : (t.apply move).glance = t.glance := by
  cases move with
  | glance => exact absurd rfl hne
  | produce => rfl
  | consume => rfl
  | callProducer call => simp only [apply]; split <;> rfl
  | callConsumer call => simp only [apply]; split <;> rfl

theorem glance_applyAll (t : Traffic α) {moves : List (Move α)} (hnone : .glance ∉ moves) :
    (t.applyAll moves).glance = t.glance := by
  induction moves generalizing t with
  | nil => rfl
  | cons move moves ih =>
    rw [List.mem_cons, not_or] at hnone
    exact (ih _ hnone.2).trans (t.glance_apply (Ne.symm hnone.1))

/-- Between its looks a glance remembers the read cursor. -/
theorem glance_begun {last : Option Nat} (hlast : t.glance = .over last) {between : List (Move α)}
    (hnone : .glance ∉ between) : ((t.apply .glance).applyAll between).glance = .readSeen t.ring.read := by
  rw [glance_applyAll _ hnone]
  show t.glance.step t.ring = .readSeen t.ring.read
  rw [hlast]
  rfl

end

/-! ## The promises -/

/-- A ring of any capacity, its cursors anywhere, after any accesses of its parties in any order. If the producer was
told that so many slots are free, its pushes of that many items in all go through, each of them whole, and if the
consumer was told that so many items are there, so do its pops, whatever else happens from then on. A glance shows no
more items than there are slots and no fewer than there are at either of its looks, and if nothing was pushed or popped
in between, just those. Its looks are so close together that fewer than 2^63 items were pushed or fewer popped. -/
theorem occupancy_within_answers [Inhabited α] (c : Capacity) (start : UInt64) (moves : List (Move α)) :
    let t := (Traffic.start (Ring.startingAt c start)).applyAll moves
    (∀ count, t.producing = .rest (some (.free count)) →
        ∀ middle call later, t.NextPush count middle call later → (t.applyAll middle).PushesAll call later) ∧
      (∀ count, t.consuming = .rest (some (.available count)) →
        ∀ middle call later, t.NextPop count middle call later → (t.applyAll middle).PopsAll call later) ∧
      ∀ last, t.glance = .over last → ∀ between, .glance ∉ between →
        let u := (t.apply .glance).applyAll between
        u.accepted.length < t.accepted.length + 2 ^ 63 ∨ u.taken.length < t.taken.length + 2 ^ 63 →
          ∃ n ≤ c.slots, (u.apply .glance).glance = .over (some n) ∧ t.ring.toList.length ≤ n ∧
            u.ring.toList.length ≤ n ∧
            (u.accepted = t.accepted → u.taken = t.taken → n = t.ring.toList.length) := by
  intro t
  obtain ⟨k, hk, honward⟩ := (start_sound (α := α) c start).onward moves
  have hproducing : t.producing.Truthful t.ring := truthful_applyAll (t := .start _) (fun _ h => nomatch h) moves
  have hconsuming : t.consuming.Truthful t.ring :=
    consuming_truthful_applyAll (t := .start _) (fun _ h => nomatch h) moves
  have hcapacity : t.ring.capacity = c := honward.capacity
  refine ⟨fun _ hfree _ _ _ => hk.pushesAll hproducing hfree,
    fun _ havailable _ _ _ => hk.popsAll hconsuming havailable, ?_⟩
  intro last hlast between hnone u hfew
  have hbegun : (t.apply .glance).Sound start.toNat k := { hk with }
  obtain ⟨l, hl, hbetween⟩ := hbegun.onward between
  obtain ⟨n, hslots, hstep, hbounds⟩ := hbegun.glance_bounds hl hbetween hfew
  have hshown : (u.apply .glance).glance = .over (some n) := by
    show u.glance.step u.ring = .over (some n)
    rw [glance_begun hlast hnone]
    exact hstep
  rw [← hcapacity]
  exact ⟨n, hslots, hshown, hbounds⟩

/-- A ring of two slots, its cursors about to wrap, with one item. One more goes in and the one comes out. A glance
during both shows two. -/
theorem two_slots_within_answers :
    let t : Traffic Nat := (Traffic.start (Ring.startingAt ⟨1, by decide⟩ 18446744073709551615)).applyAll
      [.callProducer (.push 7), .produce, .produce, .callProducer .freeSlots, .produce, .callConsumer .available,
        .consume]
    let pushed : List (Move Nat) := [.callProducer (.push 8), .produce, .produce]
    let popped : List (Move Nat) := [.callConsumer .pop, .consume, .consume]
    (t.applyAll popped).PushesAll (.pushAll [8]) [.produce, .produce] ∧
      (t.applyAll pushed).PopsAll (.popInto [0]) [.consume, .consume] ∧
      ∃ n ≤ 2, (((t.apply .glance).applyAll (pushed ++ popped)).apply .glance).glance = .over (some n) ∧ 1 ≤ n := by
  intro t pushed popped
  obtain ⟨hpush, hpop, hglance⟩ := occupancy_within_answers (α := Nat) ⟨1, by decide⟩ 18446744073709551615
    [.callProducer (.push 7), .produce, .produce, .callProducer .freeSlots, .produce, .callConsumer .available,
      .consume]
  refine ⟨?_, ?_, ?_⟩
  · exact hpush 1 (by decide) popped _ _ ⟨rfl, ⟨_, rfl⟩, by decide, by simp⟩
  · exact hpop 1 (by decide) pushed _ _ ⟨rfl, ⟨_, rfl⟩, by decide, by simp⟩
  · obtain ⟨n, hslots, hshown, hthen, -⟩ := hglance none rfl (pushed ++ popped) (by decide) (.inl (by decide))
    exact ⟨n, hslots, hshown, hthen⟩

end Traffic

end TimestampRelay
