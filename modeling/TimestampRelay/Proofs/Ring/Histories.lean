/-
What a ring in use promises to whoever watches its accesses. Items come out in the order they went in,
the parties stay apart, and a party that gets less than it asked for got all there was when it looked.
-/
import TimestampRelay.Proofs.Ring.Apart

namespace TimestampRelay

variable {α : Type} {r : Ring α} {k : Cursors}

/-! ## Calls and their answers -/

namespace Producer

/-- The items that a call wants pushed. -/
def Call.items : Call α → List α
  | .push item => [item]
  | .pushAll items => items
  | .freeSlots | .prefault => []

/-- How many items an answer says were pushed. -/
def Answer.count : Answer → Nat
  | .accepted ok => ok.toNat
  | .pushed count => count
  | .free _ | .prefaulted => 0

end Producer

namespace Consumer

/-- How many items a call wants popped. -/
def Call.wanted : Call α → Nat
  | .pop => 1
  | .popInto slice => slice.length
  | .available | .exhausted => 0

/-- The items that an answer hands over. -/
def Answer.items : Answer α → List α
  | .item popped => popped.toList
  | .slice count content => content.take count
  | .available _ | .exhausted _ => []

end Consumer

namespace Producing

/-- How far a producer has got with a call: it pushes a prefix of the items, all of them or as many as it
has `seen` room for. `base` is what was accepted before the call. -/
def Pursues (call : Producer.Call α) (base accepted : List α) (seen : Nat → Prop) : Producing α → Prop
  | .rest answer => ∃ a, answer = some a ∧ a.count ≤ call.items.length ∧
      accepted = base ++ call.items.take a.count ∧ (a.count < call.items.length → seen a.count)
  | .look c => c = call ∧ accepted = base
  | .write c left written => c = call ∧ accepted = base ∧ written ++ left <+: call.items ∧
      ((written ++ left).length < call.items.length → seen (written ++ left).length)
  | .publish c written => c = call ∧ accepted = base ∧ written <+: call.items ∧
      (written.length < call.items.length → seen written.length)
  | .touch _ _ => call.items = [] ∧ accepted = base

theorem Pursues.mono {call : Producer.Call α} {base accepted : List α} {seen seen' : Nat → Prop}
    {p : Producing α} (h : p.Pursues call base accepted seen) (himp : ∀ n, seen n → seen' n) :
    p.Pursues call base accepted seen' := by
  cases p with
  | rest answer =>
    obtain ⟨a, ha, hle, hacc, hseen⟩ := h
    exact ⟨a, ha, hle, hacc, fun hlt => himp _ (hseen hlt)⟩
  | look c => exact h
  | write c left written =>
    obtain ⟨hc, hacc, hpre, hseen⟩ := h
    exact ⟨hc, hacc, hpre, fun hlt => himp _ (hseen hlt)⟩
  | publish c written =>
    obtain ⟨hc, hacc, hpre, hseen⟩ := h
    exact ⟨hc, hacc, hpre, fun hlt => himp _ (hseen hlt)⟩
  | touch left touched => exact h

theorem pursues_answer_zero {call : Producer.Call α} {base : List α} {seen : Nat → Prop}
    (hseen : 0 < call.items.length → seen 0) :
    (Producing.rest (some (answer call 0))).Pursues call base base seen := by
  have hcount : (answer call 0).count = 0 := by cases call <;> rfl
  refine ⟨_, rfl, ?_, ?_, ?_⟩ <;> rw [hcount]
  · exact Nat.zero_le _
  · rw [List.take_zero, List.append_nil]
  · exact hseen

theorem begin_pursues (r : Ring α) (call : Producer.Call α) (base : List α) (seen : Nat → Prop) :
    (begin r call).Pursues call base base seen := by
  cases call with
  | push item =>
    simp only [begin]
    split
    · exact ⟨rfl, rfl⟩
    · exact ⟨rfl, rfl, List.prefix_rfl, fun hlt => absurd hlt (lt_irrefl _)⟩
  | pushAll items =>
    simp only [begin]
    split
    · rename_i hnil
      refine pursues_answer_zero fun hpos => ?_
      rw [List.isEmpty_iff.1 hnil] at hpos
      exact absurd hpos (lt_irrefl _)
    · split
      · exact ⟨rfl, rfl⟩
      · exact ⟨rfl, rfl, List.prefix_rfl, fun hlt => absurd hlt (lt_irrefl _)⟩
  | freeSlots | «prefault» => exact ⟨rfl, rfl⟩

/-- Behind a look, a call pushes as many items as there was room for. -/
theorem afterLook_pursues (h : r.Stands k) (hown : k.ownWrite = k.write) (hseen : k.cachedRead = k.read)
    (call : Producer.Call α) (base : List α) :
    (afterLook r call).Pursues call base base fun n => n = r.room := by
  have := h.ordered
  have hfree := h.freeSeen
  have hlen := h.length_toList
  have hroom : r.room = r.freeSeen := by
    rw [Ring.room]
    omega
  cases call with
  | push item =>
    simp only [afterLook]
    split
    · rename_i hfull
      rw [h.looksFull_iff] at hfull
      exact pursues_answer_zero fun _ => by omega
    · exact ⟨rfl, rfl, List.prefix_rfl, fun hlt => absurd hlt (lt_irrefl _)⟩
  | pushAll items =>
    have htake : (items.take r.freeSeen).length < items.length →
        (items.take r.freeSeen).length = r.room := by
      rw [List.length_take, hroom]
      omega
    simp only [afterLook, beginWriting]
    split
    · rename_i hnil
      rw [List.isEmpty_iff.1 hnil] at htake
      exact pursues_answer_zero htake
    · exact ⟨rfl, rfl, List.take_prefix _ _, htake⟩
  | freeSlots => exact ⟨_, rfl, Nat.zero_le _, (List.append_nil _).symm, fun hlt => absurd hlt (lt_irrefl _)⟩
  | «prefault» =>
    simp only [afterLook]
    split
    · exact pursues_answer_zero fun hpos => absurd hpos (lt_irrefl _)
    · exact ⟨rfl, rfl⟩

theorem count_answer {call : Producer.Call α} {n : Nat} (hle : n ≤ call.items.length) :
    (answer call n).count = n := by
  cases call with
  | push item =>
    have hone : n ≤ 1 := hle
    interval_cases n <;> rfl
  | pushAll items => rfl
  | freeSlots | «prefault» => exact (Nat.le_zero.1 hle).symm

end Producing

namespace Traffic

variable {origin : Nat} {t s : Traffic α}

/-- Among these moves the producer looks for the sake of the call, while there is room for `n` items. -/
def SeesRoom [Inhabited α] (s : Traffic α) (call : Producer.Call α) (moves : List (Move α)) (n : Nat) :
    Prop :=
  ∃ early late, moves = early ++ .produce :: late ∧ (s.applyAll early).producing = .look call ∧
    n = (s.applyAll early).ring.room

theorem Sound.produce_pursues [Inhabited α] (h : t.Sound origin k) {call : Producer.Call α}
    {base : List α} {seen : Nat → Prop} (hp : t.producing.Pursues call base t.accepted seen) :
    t.produce.producing.Pursues call base t.produce.accepted fun n =>
      seen n ∨ t.producing = .look call ∧ n = t.ring.room := by
  have hprod := h.producing
  cases hphase : t.producing with
  | rest answer =>
    rw [produce_of_rest hphase]
    exact hp.mono fun n hn => .inl hn
  | look c =>
    rw [hphase] at hp hprod
    obtain ⟨rfl, hacc⟩ := hp
    rw [produce_of_look hphase, hacc]
    exact (Producing.afterLook_pursues h.stands.lookAtRead hprod rfl c base).mono fun n hn => .inr ⟨rfl, hn⟩
  | write c left written =>
    rw [hphase] at hp hprod
    obtain ⟨rfl, hacc, hpre, hseen⟩ := hp
    obtain ⟨-, hne, -, -⟩ := hprod
    match left, hne with
    | [x], _ =>
      rw [produce_of_write_last hphase]
      exact ⟨rfl, hacc, hpre, fun hlt => .inl (hseen hlt)⟩
    | x :: y :: left, _ =>
      rw [produce_of_write_more hphase]
      rw [List.append_cons] at hpre hseen
      exact ⟨rfl, hacc, hpre, fun hlt => .inl (hseen hlt)⟩
  | publish c written =>
    rw [hphase] at hp
    obtain ⟨rfl, hacc, hpre, hseen⟩ := hp
    have hcount := Producing.count_answer hpre.length_le
    rw [produce_of_publish hphase, hacc]
    refine ⟨_, rfl, ?_, ?_, ?_⟩ <;> rw [hcount]
    · exact hpre.length_le
    · rw [← List.prefix_iff_eq_take.1 hpre]
    · exact fun hlt => .inl (hseen hlt)
  | touch left touched =>
    rw [hphase] at hp
    obtain ⟨hnil, hacc⟩ := hp
    rw [produce_of_touch hphase, hacc]
    by_cases hlast : left ≤ 1
    · simp only [if_pos hlast]
      refine ⟨_, rfl, Nat.zero_le _, (List.append_nil _).symm, fun hlt => ?_⟩
      rw [hnil] at hlt
      exact absurd hlt (Nat.not_lt_zero _)
    · simp only [if_neg hlast]
      exact ⟨hnil, rfl⟩

theorem applyAll_concat [Inhabited α] (s : Traffic α) (moves : List (Move α)) (move : Move α) :
    s.applyAll (moves ++ [move]) = (s.applyAll moves).apply move := by
  simp only [applyAll, List.foldl_append, List.foldl_cons, List.foldl_nil]

theorem SeesRoom.concat [Inhabited α] {call : Producer.Call α} {moves : List (Move α)} {n : Nat}
    (h : s.SeesRoom call moves n) (move : Move α) : s.SeesRoom call (moves ++ [move]) n := by
  obtain ⟨early, late, rfl, hlook, hn⟩ := h
  exact ⟨early, late ++ [move], by simp, hlook, hn⟩

/-- Only its own accesses and calls move the producer, and only they add to what is accepted. -/
theorem producing_apply [Inhabited α] (t : Traffic α) {move : Move α}
    (hcall : ∀ call, move ≠ .callProducer call) (haccess : move ≠ .produce) :
    (t.apply move).producing = t.producing ∧ (t.apply move).accepted = t.accepted := by
  cases move with
  | callProducer call => exact absurd rfl (hcall call)
  | produce => exact absurd rfl haccess
  | callConsumer call => simp only [apply]; split <;> exact ⟨rfl, rfl⟩
  | consume => exact ⟨rfl, rfl⟩
  | glance => exact ⟨rfl, rfl⟩

/-- Whatever else happens, the producer gets on with its call until the call is answered. -/
theorem Sound.applyAll_pursues [Inhabited α] (h : s.Sound origin k) {call : Producer.Call α} {base : List α}
    {moves : List (Move α)} (hcalls : ∀ other, .callProducer other ∉ moves)
    (hp : s.producing.Pursues call base s.accepted fun _ => False) :
    (s.applyAll moves).producing.Pursues call base (s.applyAll moves).accepted (s.SeesRoom call moves) := by
  -- By the last move: an access of the producer, or one that leaves the producer alone.
  induction moves using List.reverseRecOn with
  | nil => exact hp.mono fun n hn => hn.elim
  | append_singleton moves move ih =>
    have ih := ih fun other hmem => hcalls other (List.mem_append_left _ hmem)
    have hlast : ∀ other, move ≠ .callProducer other := fun other heq => hcalls other (by simp [heq])
    obtain ⟨k', hk'⟩ := h.applyAll moves
    rw [applyAll_concat]
    by_cases hproduce : move = .produce
    · subst hproduce
      refine (hk'.produce_pursues ih).mono fun n hn => ?_
      rcases hn with hn | ⟨hlook, hn⟩
      · exact hn.concat _
      · exact ⟨moves, [], rfl, hlook, hn⟩
    · obtain ⟨hphase, hacc⟩ := producing_apply (s.applyAll moves) hlast hproduce
      rw [hphase, hacc]
      exact ih.mono fun n hn => hn.concat move

end Traffic

namespace Consuming

/-- How far a consumer has got with a call: it pops as many items as wanted, or as many as it has `seen`.
`base` is what was taken before the call. -/
def Pursues (call : Consumer.Call α) (base taken : List α) (seen : Nat → Prop) : Consuming α → Prop
  | .rest answer => ∃ a, answer = some a ∧ a.items.length ≤ call.wanted ∧ taken = base ++ a.items ∧
      (a.items.length < call.wanted → seen a.items.length)
  | .look c => c = call ∧ taken = base
  | .read c left got => c = call ∧ taken = base ∧ got.length + left ≤ call.wanted ∧
      (got.length + left < call.wanted → seen (got.length + left))
  | .publish c got => c = call ∧ taken = base ∧ got.length ≤ call.wanted ∧
      (got.length < call.wanted → seen got.length)

theorem Pursues.mono {call : Consumer.Call α} {base taken : List α} {seen seen' : Nat → Prop}
    {c : Consuming α} (h : c.Pursues call base taken seen) (himp : ∀ n, seen n → seen' n) :
    c.Pursues call base taken seen' := by
  cases c with
  | rest answer =>
    obtain ⟨a, ha, hle, htaken, hseen⟩ := h
    exact ⟨a, ha, hle, htaken, fun hlt => himp _ (hseen hlt)⟩
  | look d => exact h
  | read d left got =>
    obtain ⟨hd, htaken, hle, hseen⟩ := h
    exact ⟨hd, htaken, hle, fun hlt => himp _ (hseen hlt)⟩
  | publish d got =>
    obtain ⟨hd, htaken, hle, hseen⟩ := h
    exact ⟨hd, htaken, hle, fun hlt => himp _ (hseen hlt)⟩

theorem items_answer {call : Consumer.Call α} {got : List α} (hle : got.length ≤ call.wanted) (found : Nat) :
    (answer call got found).items = got := by
  cases call with
  | pop =>
    match got, hle with
    | [], _ => rfl
    | [x], _ => rfl
  | popInto slice => exact List.take_left
  | available | exhausted => exact (List.length_eq_zero_iff.1 (Nat.le_zero.1 hle)).symm

theorem pursues_answer_nil {call : Consumer.Call α} {base : List α} {seen : Nat → Prop} (found : Nat)
    (hseen : 0 < call.wanted → seen 0) :
    (Consuming.rest (some (answer call [] found))).Pursues call base base seen := by
  have hitems : (answer call [] found).items = [] := items_answer (Nat.zero_le _) found
  refine ⟨_, rfl, ?_, ?_, ?_⟩ <;> rw [hitems]
  · exact Nat.zero_le _
  · exact (List.append_nil _).symm
  · exact hseen

theorem begin_pursues (r : Ring α) (call : Consumer.Call α) (base : List α) (seen : Nat → Prop) :
    (begin r call).Pursues call base base seen := by
  cases call with
  | pop =>
    simp only [begin]
    split
    · exact ⟨rfl, rfl⟩
    · exact ⟨rfl, rfl, le_rfl, fun hlt => absurd hlt (lt_irrefl _)⟩
  | popInto slice =>
    have hwhole : 0 + slice.length = (Consumer.Call.popInto slice).wanted := Nat.zero_add _
    simp only [begin]
    split
    · rename_i hnil
      refine pursues_answer_nil 0 fun hpos => ?_
      rw [List.isEmpty_iff.1 hnil] at hpos
      exact absurd hpos (lt_irrefl _)
    · split
      · exact ⟨rfl, rfl⟩
      · exact ⟨rfl, rfl, hwhole.le, fun hlt => absurd hwhole hlt.ne⟩
  | available | exhausted => exact ⟨rfl, rfl⟩

theorem beginReading_pursues {call : Consumer.Call α} {base : List α} {seen : Nat → Prop} {count : Nat}
    (hle : count ≤ call.wanted) (hseen : count < call.wanted → seen count) :
    (beginReading call count).Pursues call base base seen := by
  unfold beginReading
  split
  · rename_i hzero
    subst hzero
    exact pursues_answer_nil 0 hseen
  · refine ⟨rfl, rfl, ?_, ?_⟩ <;> rw [List.length_nil, Nat.zero_add]
    · exact hle
    · exact hseen

/-- Behind a look, a call pops as many items as there were. -/
theorem afterLook_pursues (h : r.Stands k) (hown : k.ownRead = k.read) (hseen : k.cachedWrite = k.write)
    (call : Consumer.Call α) (base : List α) :
    (afterLook r call).Pursues call base base fun n => n = r.toList.length := by
  have := h.ordered
  have havail := h.availableSeen
  have hlen := h.length_toList
  cases call with
  | pop =>
    refine beginReading_pursues ?_ ?_
    · show _ ≤ 1
      split <;> omega
    · show _ < 1 → _
      split
      · rename_i hempty
        rw [h.looksEmpty_iff] at hempty
        omega
      · omega
  | popInto slice =>
    refine beginReading_pursues (Nat.min_le_left _ _) ?_
    show min slice.length r.availableSeen < slice.length → _
    omega
  | available | exhausted => exact pursues_answer_nil _ fun hpos => absurd hpos (lt_irrefl _)

end Consuming

namespace Traffic

variable {origin : Nat} {t s : Traffic α}

/-- Among these moves the consumer looks for the sake of the call, while there are `n` items. -/
def SeesItems [Inhabited α] (s : Traffic α) (call : Consumer.Call α) (moves : List (Move α)) (n : Nat) :
    Prop :=
  ∃ early late, moves = early ++ .consume :: late ∧ (s.applyAll early).consuming = .look call ∧
    n = (s.applyAll early).ring.toList.length

theorem Sound.consume_pursues (h : t.Sound origin k) {call : Consumer.Call α} {base : List α}
    {seen : Nat → Prop} (hc : t.consuming.Pursues call base t.taken seen) :
    t.consume.consuming.Pursues call base t.consume.taken fun n =>
      seen n ∨ t.consuming = .look call ∧ n = t.ring.toList.length := by
  have hcons := h.consuming
  cases hphase : t.consuming with
  | rest answer =>
    rw [consume_of_rest hphase]
    exact hc.mono fun n hn => .inl hn
  | look c =>
    rw [hphase] at hc hcons
    obtain ⟨rfl, htaken⟩ := hc
    rw [consume_of_look hphase, htaken]
    exact (Consuming.afterLook_pursues h.stands.lookAtWrite hcons rfl c base).mono fun n hn => .inr ⟨rfl, hn⟩
  | read c left got =>
    rw [hphase] at hc hcons
    obtain ⟨rfl, htaken, hle, hseen⟩ := hc
    obtain ⟨-, hleft, -, -⟩ := hcons
    have hlen : (got ++ [Consuming.readSlot t.ring got.length]).length = got.length + 1 := by simp
    by_cases hlast : left ≤ 1
    · have hwhole : got.length + left = got.length + 1 := by omega
      rw [consume_of_read_last hphase hlast]
      rw [hwhole, ← hlen] at hle hseen
      exact ⟨rfl, htaken, hle, fun hlt => .inl (hseen hlt)⟩
    · have hwhole : got.length + left = got.length + 1 + (left - 1) := by omega
      rw [consume_of_read_more hphase hlast]
      rw [hwhole, ← hlen] at hle hseen
      exact ⟨rfl, htaken, hle, fun hlt => .inl (hseen hlt)⟩
  | publish c got =>
    rw [hphase] at hc
    obtain ⟨rfl, htaken, hle, hseen⟩ := hc
    have hitems := Consuming.items_answer hle 0
    rw [consume_of_publish hphase, htaken]
    refine ⟨_, rfl, ?_, ?_, ?_⟩ <;> rw [hitems]
    · exact hle
    · exact fun hlt => .inl (hseen hlt)

theorem SeesItems.concat [Inhabited α] {call : Consumer.Call α} {moves : List (Move α)} {n : Nat}
    (h : s.SeesItems call moves n) (move : Move α) : s.SeesItems call (moves ++ [move]) n := by
  obtain ⟨early, late, rfl, hlook, hn⟩ := h
  exact ⟨early, late ++ [move], by simp, hlook, hn⟩

theorem consuming_apply [Inhabited α] (t : Traffic α) {move : Move α}
    (hcall : ∀ call, move ≠ .callConsumer call) (haccess : move ≠ .consume) :
    (t.apply move).consuming = t.consuming ∧ (t.apply move).taken = t.taken := by
  cases move with
  | callConsumer call => exact absurd rfl (hcall call)
  | consume => exact absurd rfl haccess
  | callProducer call => simp only [apply]; split <;> exact ⟨rfl, rfl⟩
  | produce => exact ⟨rfl, rfl⟩
  | glance => exact ⟨rfl, rfl⟩

/-- Whatever else happens, the consumer gets on with its call until the call is answered. -/
theorem Sound.applyAll_consuming_pursues [Inhabited α] (h : s.Sound origin k) {call : Consumer.Call α}
    {base : List α} {moves : List (Move α)} (hcalls : ∀ other, .callConsumer other ∉ moves)
    (hc : s.consuming.Pursues call base s.taken fun _ => False) :
    (s.applyAll moves).consuming.Pursues call base (s.applyAll moves).taken (s.SeesItems call moves) := by
  -- By the last move: an access of the consumer, or one that leaves the consumer alone.
  induction moves using List.reverseRecOn with
  | nil => exact hc.mono fun n hn => hn.elim
  | append_singleton moves move ih =>
    have ih := ih fun other hmem => hcalls other (List.mem_append_left _ hmem)
    have hlast : ∀ other, move ≠ .callConsumer other := fun other heq => hcalls other (by simp [heq])
    obtain ⟨k', hk'⟩ := h.applyAll moves
    rw [applyAll_concat]
    by_cases hconsume : move = .consume
    · subst hconsume
      refine (hk'.consume_pursues ih).mono fun n hn => ?_
      rcases hn with hn | ⟨hlook, hn⟩
      · exact hn.concat _
      · exact ⟨moves, [], rfl, hlook, hn⟩
    · obtain ⟨hphase, htaken⟩ := consuming_apply (s.applyAll moves) hlast hconsume
      rw [hphase, htaken]
      exact ih.mono fun n hn => hn.concat move

/-! ## The promises -/

/-- A call that the producer was asked for at rest, answered after these moves. -/
structure ProducerRun [Inhabited α] (t : Traffic α) (call : Producer.Call α) (later : List (Move α))
    (answer : Producer.Answer) : Prop where
  atRest : ∃ last, t.producing = .rest last
  alone : ∀ other, .callProducer other ∉ later
  answered : ((t.apply (.callProducer call)).applyAll later).producing = .rest (some answer)

/-- A call that the consumer was asked for at rest, answered after these moves. -/
structure ConsumerRun [Inhabited α] (t : Traffic α) (call : Consumer.Call α) (later : List (Move α))
    (answer : Consumer.Answer α) : Prop where
  atRest : ∃ last, t.consuming = .rest last
  alone : ∀ other, .callConsumer other ∉ later
  answered : ((t.apply (.callConsumer call)).applyAll later).consuming = .rest (some answer)

/-- A call adds to what is accepted the items it counts; if it counts fewer than it was given, it saw
room for just so many. -/
theorem Sound.producerRun [Inhabited α] (h : t.Sound origin k) {call : Producer.Call α}
    {later : List (Move α)} {answer : Producer.Answer} (hrun : t.ProducerRun call later answer) :
    answer.count ≤ call.items.length ∧
      ((t.apply (.callProducer call)).applyAll later).accepted =
        t.accepted ++ call.items.take answer.count ∧
      (answer.count < call.items.length →
        (t.apply (.callProducer call)).SeesRoom call later answer.count) := by
  obtain ⟨⟨last, hlast⟩, halone, hanswer⟩ := hrun
  obtain ⟨k', hk'⟩ := h.apply (.callProducer call)
  have hcalled : t.apply (.callProducer call) = { t with producing := .begin t.ring call } := by
    simp only [Traffic.apply, hlast]
  have hbegin : (t.apply (.callProducer call)).producing.Pursues call t.accepted
      (t.apply (.callProducer call)).accepted fun _ => False := by
    rw [hcalled]
    exact Producing.begin_pursues t.ring call t.accepted _
  have hend := hk'.applyAll_pursues halone hbegin
  rw [hanswer] at hend
  obtain ⟨a, ha, hend⟩ := hend
  rw [Option.some.inj ha]
  exact hend

/-- A call adds to what is taken the items it hands over; if those are fewer than it wanted, it saw just
so many. -/
theorem Sound.consumerRun [Inhabited α] (h : t.Sound origin k) {call : Consumer.Call α}
    {later : List (Move α)} {answer : Consumer.Answer α} (hrun : t.ConsumerRun call later answer) :
    answer.items.length ≤ call.wanted ∧
      ((t.apply (.callConsumer call)).applyAll later).taken = t.taken ++ answer.items ∧
      (answer.items.length < call.wanted →
        (t.apply (.callConsumer call)).SeesItems call later answer.items.length) := by
  obtain ⟨⟨last, hlast⟩, halone, hanswer⟩ := hrun
  obtain ⟨k', hk'⟩ := h.apply (.callConsumer call)
  have hcalled : t.apply (.callConsumer call) = { t with consuming := .begin t.ring call } := by
    simp only [Traffic.apply, hlast]
  have hbegin : (t.apply (.callConsumer call)).consuming.Pursues call t.taken
      (t.apply (.callConsumer call)).taken fun _ => False := by
    rw [hcalled]
    exact Consuming.begin_pursues t.ring call t.taken _
  have hend := hk'.applyAll_consuming_pursues halone hbegin
  rw [hanswer] at hend
  obtain ⟨a, ha, hend⟩ := hend
  rw [Option.some.inj ha]
  exact hend

/-- A ring of any capacity, its cursors anywhere, after any accesses of its parties in any order. What
was taken is a prefix of what was accepted. The slot the producer writes next is neither occupied nor
being read, and no move changes any other slot. From here on, every call of a party adds what it
answers to what was accepted or taken, and falls short only of what it saw in one look. -/
theorem accesses_keep_order [Inhabited α] (c : Capacity) (start : UInt64) (moves : List (Move α)) :
    let t := (Traffic.start (Ring.startingAt c start)).applyAll moves
    t.taken <+: t.accepted ∧
      (∀ slot, t.producing.target? t.ring = some slot →
        slot ∉ t.ring.occupied ∧ slot ∉ t.consuming.window t.ring) ∧
      (∀ move cursor,
        (move = .produce → t.producing.target? t.ring ≠ some (t.ring.capacity.slot cursor)) →
        (t.apply move).ring.item cursor = t.ring.item cursor) ∧
      (∀ call later answer, t.ProducerRun call later answer →
        answer.count ≤ call.items.length ∧
          ((t.apply (.callProducer call)).applyAll later).accepted =
            t.accepted ++ call.items.take answer.count ∧
          (answer.count < call.items.length →
            (t.apply (.callProducer call)).SeesRoom call later answer.count)) ∧
      (∀ call later answer, t.ConsumerRun call later answer →
        answer.items.length ≤ call.wanted ∧
          ((t.apply (.callConsumer call)).applyAll later).taken = t.taken ++ answer.items ∧
          (answer.items.length < call.wanted →
            (t.apply (.callConsumer call)).SeesItems call later answer.items.length)) := by
  intro t
  obtain ⟨k, hk⟩ : ∃ k, t.Sound start.toNat k := (start_sound c start).applyAll moves
  refine ⟨?_, ?_, ?_, ?_, ?_⟩
  · rw [hk.accepted_eq]
    exact List.prefix_append _ _
  · intro slot hslot
    exact hk.target_apart hslot
  · intro move cursor hne
    exact item_apply t move cursor hne
  · intro call later answer hrun
    exact hk.producerRun hrun
  · intro call later answer hrun
    exact hk.consumerRun hrun

/-- A ring of two slots, its cursors about to wrap, after a push of one item. Of two more the next push accepts the one
that it sees room for, and a pop of two takes the one item that it sees. -/
theorem two_slots_keep_order :
    let t : Traffic Nat := (Traffic.start (Ring.startingAt ⟨1, by decide⟩ 18446744073709551615)).applyAll
      [.callProducer (.push 7), .produce, .produce]
    let pushing := t.apply (.callProducer (.pushAll [8, 9]))
    let popping := t.apply (.callConsumer (.popInto [0, 0]))
    t.accepted = [7] ∧
      (pushing.applyAll [.produce, .produce, .produce]).producing = .rest (some (.pushed 1)) ∧
      (pushing.applyAll [.produce, .produce, .produce]).accepted = [7, 8] ∧
      pushing.SeesRoom (.pushAll [8, 9]) [.produce, .produce, .produce] 1 ∧
      (popping.applyAll [.consume, .consume, .consume]).consuming = .rest (some (.slice 1 [7, 0])) ∧
      (popping.applyAll [.consume, .consume, .consume]).taken = [7] ∧
      popping.SeesItems (.popInto [0, 0]) [.consume, .consume, .consume] 1 := by
  intro t pushing popping
  obtain ⟨-, -, -, hpush, hpop⟩ := accesses_keep_order (α := Nat) ⟨1, by decide⟩ 18446744073709551615
    [.callProducer (.push 7), .produce, .produce]
  have haccepted : t.accepted = [7] := by decide
  have htaken : t.taken = [] := by decide
  have hpushRun : t.ProducerRun (.pushAll [8, 9]) [.produce, .produce, .produce] (.pushed 1) :=
    ⟨⟨_, rfl⟩, by simp, by decide⟩
  have hpopRun : t.ConsumerRun (.popInto [0, 0]) [.consume, .consume, .consume] (.slice 1 [7, 0]) :=
    ⟨⟨_, rfl⟩, by simp, by decide⟩
  obtain ⟨-, hadded, hroom⟩ := hpush _ _ _ hpushRun
  obtain ⟨-, hgone, hitems⟩ := hpop _ _ _ hpopRun
  refine ⟨haccepted, hpushRun.answered, hadded.trans ?_, hroom (by decide), hpopRun.answered, hgone.trans ?_,
    hitems (by decide)⟩
  · exact congrArg (· ++ [8]) haccepted
  · exact congrArg (· ++ [7]) htaken

end Traffic

end TimestampRelay
