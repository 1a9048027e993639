/-
How soon the stages of a run react. Once the signal is raised, or the neighbour behind a stage has stopped, the
stage completes the burst that it has begun, if it has, and begins no other: it pulls no more events, pops no
more often and delivers no more values than that takes, whatever happens around it.
-/
import TimestampRelay.Proofs.Run.Books

namespace TimestampRelay

/-! ## What the loops can still do -/

section Position

variable {β : Type}

/-- What a stage can still do, where its loop can do so much of it as it stands, and nothing when it is entered. -/
def Position.amount (loop : β → Nat) : Position β → Nat
  | .loop state => loop state
  | _ => 0

theorem Position.amount_le {loop : β → Nat} {n : Nat} (h : ∀ s, loop s ≤ n) (position : Position β) :
    position.amount loop ≤ n := by
  cases position with
  | loop state => exact h state
  | bind | refused | enter | broken | leave | finish | ended => exact Nat.zero_le _

theorem Position.amount_mono {loop loop' : β → Nat} (h : ∀ s, loop s ≤ loop' s) (position : Position β) :
    position.amount loop ≤ position.amount loop' := by
  cases position with
  | loop state => exact h state
  | bind | refused | enter | broken | leave | finish | ended => exact le_rfl

theorem Position.amount_of_ne {loop : β → Nat} {position : Position β} (h : ∀ s, position ≠ .loop s) :
    position.amount loop = 0 := by
  cases position with
  | loop state => exact absurd rfl (h state)
  | bind | refused | enter | broken | leave | finish | ended => rfl

theorem Worker.amount_advance (job : Job) (kind : StageKind) {first : β} (w : Worker β) (signal : Bool)
    (loop : β → Nat) (hfirst : loop first = 0) :
    (w.advance job kind first signal).1.position.amount loop ≤ w.position.amount loop := by
  obtain ⟨position, state, done⟩ := w
  cases position with
  | bind =>
    show (afterBind job kind : Position β).amount loop ≤ 0
    rcases afterBind_eq (β := β) job kind with heq | ⟨core, cause, heq⟩ <;> rw [heq] <;> exact le_rfl
  | enter => exact hfirst.le
  | refused | loop | broken | leave | finish | ended => exact le_rfl

end Position

namespace Intake

variable {job : Job} {o : Outlet Descriptor}

/-- Calls to the feed that a source can still make which is to stop, its neighbour having stopped or not. It makes
them only behind both its looks, to complete a burst. -/
def callsLeft (burst : Nat) (downDone : Bool) (s : Intake) : Nat :=
  match s.point with
  | .readNeighbour => if downDone then 0 else burst
  | .pull held => burst - (held.size + 1) + 1
  | .readSignal | .push _ _ => 0

theorem callsLeft_le {burst : Nat} (hburst : 0 < burst) (downDone : Bool) (s : Intake) :
    s.callsLeft burst downDone ≤ burst := by
  unfold callsLeft
  split
  · split
    · exact Nat.zero_le _
    · exact le_rfl
  · omega
  · exact Nat.zero_le _
  · exact Nat.zero_le _

/-- A neighbour that stops leaves no more calls. -/
theorem callsLeft_anti (burst : Nat) {downDone downDone' : Bool} (hdone : downDone = true → downDone' = true)
    (s : Intake) : s.callsLeft burst downDone' ≤ s.callsLeft burst downDone := by
  unfold callsLeft
  cases s.point with
  | readNeighbour => cases downDone <;> cases downDone' <;> simp_all
  | readSignal | pull | push => exact le_rfl

theorem gather_callsLeft (burst : Nat) (downDone : Bool) (held : Array Descriptor) (tally : Tally) :
    (gather burst held tally).position.amount (callsLeft burst downDone) ≤ burst - held.size := by
  unfold gather
  split
  · show burst - (held.size + 1) + 1 ≤ burst - held.size
    omega
  · split <;> exact Nat.zero_le _

theorem close_callsLeft (burst : Nat) (downDone : Bool) (held : Array Descriptor) (tally : Tally) :
    (close held tally).position.amount (callsLeft burst downDone) = 0 := by
  unfold close
  split <;> rfl

theorem afterPush_callsLeft (burst : Nat) (downDone : Bool) (items : Handoff Descriptor) (isLast : Bool)
    (tally : Tally) : (afterPush items isLast tally).position.amount (callsLeft burst downDone) = 0 := by
  unfold afterPush
  split
  · split
    · rfl
    · split <;> rfl
  · rfl

/-- A source that is to stop makes calls only out of those that it can still make. -/
theorem step_callsLeft (job : Job) (htold : o.signal = true ∨ o.neighbourDone = true) (calls : Nat) (s : Intake) :
    (s.step job o calls).2.1 + (s.step job o calls).2.2.position.amount (callsLeft job.burst o.neighbourDone) ≤
      calls + s.callsLeft job.burst o.neighbourDone := by
  obtain ⟨point, tally⟩ := s
  cases point with
  | readSignal =>
    simp only [Intake.step]
    split
    · exact le_rfl
    · -- The signal is not raised, so the look at the neighbour is still to come and finds that it has stopped.
      rename_i hsignal
      rcases htold with hsignal' | hdone
      · exact absurd hsignal' hsignal
      · simp [Next.position, Position.amount, callsLeft, hdone]
  | readNeighbour =>
    simp only [Intake.step]
    split
    · exact Nat.le_add_right _ _
    · rename_i hdone
      have := gather_callsLeft job.burst o.neighbourDone #[] tally
      simp only [callsLeft, if_neg hdone]
      exact Nat.add_le_add_left this calls
  | pull held =>
    show calls + 1 + _ ≤ calls + (job.burst - (held.size + 1) + 1)
    simp only [Intake.step]
    cases job.workload.feed calls with
    | event d =>
      have := gather_callsLeft job.burst o.neighbourDone (held.push d) tally
      rw [Array.size_push] at this
      dsimp only
      omega
    | ended =>
      rw [close_callsLeft]
      omega
    | broken =>
      show calls + 1 + 0 ≤ _
      omega
  | push burst isLast =>
    show calls + (afterPush _ isLast tally).position.amount _ ≤ calls + 0
    rw [afterPush_callsLeft]

end Intake

namespace Extension

variable {job : Job} {inbound : Ring Descriptor} {upDone : Bool} {o : Outlet UInt64}

/-- Pops that an extender can still make which is to stop, its neighbour having stopped or not. -/
def popsLeft (downDone : Bool) (s : Extension) : Nat :=
  match s.point with
  | .readDownstream => if downDone then 0 else 1
  | .pop => 1
  | .readSignal | .readUpstream | .recheck | .push _ => 0

theorem popsLeft_le (downDone : Bool) (s : Extension) : s.popsLeft downDone ≤ 1 := by
  unfold popsLeft
  split
  · split <;> omega
  all_goals omega

theorem popsLeft_anti {downDone downDone' : Bool} (hdone : downDone = true → downDone' = true) (s : Extension) :
    s.popsLeft downDone' ≤ s.popsLeft downDone := by
  unfold popsLeft
  cases s.point with
  | readDownstream => cases downDone <;> cases downDone' <;> simp_all
  | readSignal | pop | readUpstream | recheck | push => exact le_rfl

/-- How many items the next step pops. -/
def popping (job : Job) (inbound : Ring Descriptor) (s : Extension) : Nat :=
  match s.point with
  | .pop => (inbound.popUpTo job.burst).1.length
  | .readSignal | .readDownstream | .readUpstream | .recheck | .push _ => 0

theorem popping_le (job : Job) (inbound : Ring Descriptor) (s : Extension) : s.popping job inbound ≤ job.burst := by
  unfold popping
  split
  · exact inbound.length_popUpTo_le _
  all_goals exact Nat.zero_le _

/-- What a step pops is missing from the ring. -/
theorem popping_add_length (job : Job) (upDone : Bool) (o : Outlet UInt64) (hin : inbound.AtRest) (s : Extension) :
    s.popping job inbound + (s.step job inbound upDone o).1.toList.length = inbound.toList.length := by
  obtain ⟨point, unwrapper, tally⟩ := s
  cases point with
  | pop =>
    show (inbound.popUpTo job.burst).1.length + (inbound.popUpTo job.burst).2.toList.length = _
    rw [← List.length_append, hin.popUpTo_append]
  | recheck =>
    obtain ⟨-, -, hlist, -⟩ := hin.exhausted
    show 0 + inbound.exhausted.2.toList.length = _
    rw [hlist, Nat.zero_add]
  | readSignal | readDownstream | readUpstream | push burst => exact Nat.zero_add _

theorem take_popsLeft (downDone : Bool) (s : Extension) (popped : List Descriptor) :
    (s.take popped).popsLeft downDone = 0 := by
  unfold take
  split <;> rfl

theorem afterPush_popsLeft (downDone : Bool) (s : Extension) (burst : Handoff UInt64) :
    (s.afterPush burst).position.amount (popsLeft downDone) = 0 := by
  unfold afterPush
  split
  · dsimp only
    split <;> rfl
  · rfl

/-- An extender that is to stop does not come to pop more often. -/
theorem step_popsLeft_le (htold : o.signal = true ∨ o.neighbourDone = true) (s : Extension) :
    (s.step job inbound upDone o).2.2.position.amount (popsLeft o.neighbourDone) ≤ s.popsLeft o.neighbourDone := by
  obtain ⟨point, unwrapper, tally⟩ := s
  cases point with
  | readSignal =>
    simp only [Extension.step]
    split
    · exact le_rfl
    · rename_i hsignal
      rcases htold with hsignal' | hdone
      · exact absurd hsignal' hsignal
      · simp [Next.position, Position.amount, popsLeft, hdone]
  | readDownstream =>
    simp only [Extension.step]
    split
    · exact Nat.zero_le _
    · rename_i hdone
      simp [Next.position, Position.amount, popsLeft, hdone]
  | pop => exact (take_popsLeft _ _ _).trans_le (Nat.zero_le _)
  | readUpstream =>
    simp only [Extension.step]
    split <;> exact le_rfl
  | recheck =>
    simp only [Extension.step]
    split <;> exact le_rfl
  | push burst => exact (afterPush_popsLeft _ _ _).le

/-- A pop is the last one of an extender that is to stop. -/
theorem popsLeft_of_popping {s : Extension} (h : s.popping job inbound ≠ 0) :
    (s.step job inbound upDone o).2.2.position.amount (popsLeft o.neighbourDone) < s.popsLeft o.neighbourDone := by
  obtain ⟨point, unwrapper, tally⟩ := s
  cases point with
  | pop => exact (take_popsLeft _ _ _).trans_lt Nat.one_pos
  | readSignal | readDownstream | readUpstream | recheck | push burst => exact absurd rfl h

end Extension

namespace Delivery

variable {job : Job} {outbound : Ring UInt64} {signal upDone : Bool} {delivered : Array UInt64} {s : Delivery}

/-- Pops that a sink can still make which is to stop. -/
def popsLeft (s : Delivery) : Nat :=
  match s.point with
  | .pop _ => 1
  | .readSignal | .readUpstream | .recheck | .deliver _ _ => 0

theorem popsLeft_le (s : Delivery) : s.popsLeft ≤ 1 := by
  unfold popsLeft
  split <;> omega

/-- Deliveries that a sink can still make which is to stop. -/
def deliveriesLeft (s : Delivery) : Nat :=
  match s.point with
  | .pop want => want
  | .deliver left _ => left.length
  | .readSignal | .readUpstream | .recheck => 0

theorem Sound.deliveriesLeft_le {n : Nat} (h : s.Sound job upDone n) : s.deliveriesLeft ≤ job.burst := by
  obtain ⟨point, count⟩ := s
  cases point with
  | pop want => exact h.2.1
  | deliver left size => exact h.2.1.trans h.2.2.1
  | readSignal | readUpstream | recheck => exact Nat.zero_le _

/-- How many items the next step pops. -/
def popping (outbound : Ring UInt64) (s : Delivery) : Nat :=
  match s.point with
  | .pop want => (outbound.popUpTo want).1.length
  | .readSignal | .readUpstream | .recheck | .deliver _ _ => 0

/-- What a step pops is missing from the ring. -/
theorem popping_add_length (job : Job) (signal upDone : Bool) (delivered : Array UInt64) (hr : outbound.AtRest)
    (s : Delivery) :
    s.popping outbound + (s.step job outbound signal upDone delivered).1.toList.length = outbound.toList.length := by
  obtain ⟨point, count⟩ := s
  cases point with
  | pop want =>
    show (outbound.popUpTo want).1.length + (outbound.popUpTo want).2.toList.length = _
    rw [← List.length_append, hr.popUpTo_append]
  | recheck =>
    obtain ⟨-, -, hlist, -⟩ := hr.exhausted
    show 0 + outbound.exhausted.2.toList.length = _
    rw [hlist, Nat.zero_add]
  | readSignal | readUpstream => exact Nat.zero_add _
  | deliver left size => cases left <;> exact Nat.zero_add _

theorem proceed_popsLeft (s : Delivery) (left : List UInt64) (size : Nat) : (s.proceed left size).popsLeft = 0 := by
  unfold proceed
  split <;> rfl

theorem proceed_deliveriesLeft (s : Delivery) (left : List UInt64) (size : Nat) :
    (s.proceed left size).deliveriesLeft ≤ left.length := by
  unfold proceed
  split
  · exact Nat.zero_le _
  · exact le_rfl

/-- A sink that finds the signal raised where it looks at it does not come to pop more often. -/
theorem step_popsLeft_le (htold : s.point = .readSignal → signal = true) :
    (s.step job outbound signal upDone delivered).2.2.position.amount popsLeft ≤ s.popsLeft := by
  obtain ⟨point, count⟩ := s
  cases point with
  | readSignal =>
    simp only [Delivery.step, htold rfl]
    exact le_rfl
  | pop want =>
    simp only [Delivery.step]
    split
    · exact Nat.zero_le _
    · exact (proceed_popsLeft _ _ _).trans_le (Nat.zero_le _)
  | readUpstream =>
    simp only [Delivery.step]
    split <;> exact le_rfl
  | recheck =>
    simp only [Delivery.step]
    split <;> exact le_rfl
  | deliver left size =>
    cases left with
    | nil => exact (proceed_popsLeft ⟨.deliver [] size, count⟩ [] size).le
    | cons value left =>
      simp only [Delivery.step]
      split
      · exact le_rfl
      · exact (proceed_popsLeft _ _ _).le

/-- A pop is the last one of a sink that is to stop. -/
theorem popsLeft_of_popping (h : s.popping outbound ≠ 0) :
    (s.step job outbound signal upDone delivered).2.2.position.amount popsLeft < s.popsLeft := by
  obtain ⟨point, count⟩ := s
  cases point with
  | pop want =>
    simp only [Delivery.step]
    split
    · exact Nat.one_pos
    · exact (proceed_popsLeft _ _ _).trans_lt Nat.one_pos
  | readSignal | readUpstream | recheck | deliver left size => exact absurd rfl h

/-- A sink that finds the signal raised where it looks at it delivers only as much as it still can. -/
theorem step_deliveriesLeft (htold : s.point = .readSignal → signal = true) :
    (s.step job outbound signal upDone delivered).2.1.size +
        (s.step job outbound signal upDone delivered).2.2.position.amount deliveriesLeft ≤
      delivered.size + s.deliveriesLeft := by
  obtain ⟨point, count⟩ := s
  cases point with
  | readSignal =>
    simp only [Delivery.step, htold rfl]
    exact le_rfl
  | pop want =>
    simp only [Delivery.step]
    split
    · exact Nat.le_add_right _ _
    · refine Nat.add_le_add_left ?_ _
      exact (proceed_deliveriesLeft _ _ _).trans (outbound.length_popUpTo_le want)
  | readUpstream =>
    simp only [Delivery.step]
    split <;> exact le_rfl
  | recheck =>
    simp only [Delivery.step]
    split <;> exact le_rfl
  | deliver left size =>
    cases left with
    | nil => exact Nat.add_le_add_left (proceed_deliveriesLeft ⟨.deliver [] size, count⟩ [] size) delivered.size
    | cons value left =>
      simp only [Delivery.step]
      split
      · show (delivered.push value).size + 0 ≤ delivered.size + (left.length + 1)
        rw [Array.size_push]
        omega
      · have := proceed_deliveriesLeft ⟨.deliver (value :: left) size, count⟩ left size
        show (delivered.push value).size + (proceed _ left size).deliveriesLeft ≤ delivered.size + (left.length + 1)
        rw [Array.size_push]
        omega

/-- A look at the signal delivers nothing. -/
theorem not_readSignal_of_delivered
    (h : delivered.size < (s.step job outbound signal upDone delivered).2.1.size) : s.point ≠ .readSignal := by
  intro hpoint
  simp only [Delivery.step, hpoint] at h
  exact absurd h (lt_irrefl _)

end Delivery

namespace World

variable {job : Job} {w : World}

/-! ## What a move leaves as it was -/

theorem signal_apply (move : Move) (h : w.signal = true) : (w.apply job move).signal = true := by
  cases move with
  | step stage =>
    cases stage with
    | source =>
      show (w.stepSource job).signal = true
      rcases w.stepSource_cases job with ⟨s, -, heq⟩ | ⟨-, heq⟩ <;> rw [heq]
      · exact h
      · exact Worker.signal_advance h
    | extender =>
      show (w.stepExtender job).signal = true
      rcases w.stepExtender_cases job with ⟨s, -, heq⟩ | ⟨-, heq⟩ <;> rw [heq]
      · exact h
      · exact Worker.signal_advance h
    | sink =>
      show (w.stepSink job).signal = true
      rcases w.stepSink_cases job with ⟨s, -, heq⟩ | ⟨-, heq⟩ <;> rw [heq]
      · exact h
      · exact Worker.signal_advance h
  | raiseSignal => rfl
  | finish stage => cases stage <;> exact h
  | takeInbound | takeOutbound | offerInbound | offerOutbound => exact h

theorem done_apply (move : Move) (stage : StageKind) (h : w.done.get stage = true) :
    (w.apply job move).done.get stage = true := by
  cases move with
  | step actor =>
    cases actor with
    | source =>
      show (w.stepSource job).done.get stage = true
      rcases w.stepSource_cases job with ⟨s, -, heq⟩ | ⟨-, heq⟩ <;> rw [heq]
      · cases stage <;> exact h
      · cases stage with
        | source => exact Worker.done_advance h
        | extender | sink => exact h
    | extender =>
      show (w.stepExtender job).done.get stage = true
      rcases w.stepExtender_cases job with ⟨s, -, heq⟩ | ⟨-, heq⟩ <;> rw [heq]
      · cases stage <;> exact h
      · cases stage with
        | extender => exact Worker.done_advance h
        | source | sink => exact h
    | sink =>
      show (w.stepSink job).done.get stage = true
      rcases w.stepSink_cases job with ⟨s, -, heq⟩ | ⟨-, heq⟩ <;> rw [heq]
      · cases stage <;> exact h
      · cases stage with
        | sink => exact Worker.done_advance h
        | source | extender => exact h
  | finish other => cases other <;> cases stage <;> first | rfl | exact h
  | raiseSignal | takeInbound | takeOutbound | offerInbound | offerOutbound => cases stage <;> exact h

/-- Only its own steps take the source on. -/
theorem apply_of_ne_source (job : Job) (w : World) {move : Move} (hne : move ≠ .step .source) :
    (w.apply job move).source.position = w.source.position ∧ (w.apply job move).calls = w.calls := by
  cases move with
  | step actor =>
    cases actor with
    | source => exact absurd rfl hne
    | extender =>
      show (w.stepExtender job).source.position = _ ∧ (w.stepExtender job).calls = _
      unfold stepExtender
      split <;> exact ⟨rfl, rfl⟩
    | sink =>
      show (w.stepSink job).source.position = _ ∧ (w.stepSink job).calls = _
      unfold stepSink
      split <;> exact ⟨rfl, rfl⟩
  | finish stage => cases stage <;> exact ⟨rfl, rfl⟩
  | raiseSignal | takeInbound | takeOutbound | offerInbound | offerOutbound => exact ⟨rfl, rfl⟩

theorem apply_of_ne_extender (job : Job) (w : World) {move : Move} (hne : move ≠ .step .extender) :
    (w.apply job move).extender.position = w.extender.position := by
  cases move with
  | step actor =>
    cases actor with
    | extender => exact absurd rfl hne
    | source =>
      show (w.stepSource job).extender.position = _
      unfold stepSource
      split <;> rfl
    | sink =>
      show (w.stepSink job).extender.position = _
      unfold stepSink
      split <;> rfl
  | finish stage => cases stage <;> rfl
  | raiseSignal | takeInbound | takeOutbound | offerInbound | offerOutbound => rfl

theorem apply_of_ne_sink (job : Job) (w : World) {move : Move} (hne : move ≠ .step .sink) :
    (w.apply job move).sink.position = w.sink.position ∧ (w.apply job move).delivered = w.delivered := by
  cases move with
  | step actor =>
    cases actor with
    | sink => exact absurd rfl hne
    | source =>
      show (w.stepSource job).sink.position = _ ∧ (w.stepSource job).delivered = _
      unfold stepSource
      split <;> exact ⟨rfl, rfl⟩
    | extender =>
      show (w.stepExtender job).sink.position = _ ∧ (w.stepExtender job).delivered = _
      unfold stepExtender
      split <;> exact ⟨rfl, rfl⟩
  | finish stage => cases stage <;> exact ⟨rfl, rfl⟩
  | raiseSignal | takeInbound | takeOutbound | offerInbound | offerOutbound => exact ⟨rfl, rfl⟩

/-! ## What is left to do of stages that are to stop -/

/-- A stage is to stop: the signal is raised, or the neighbour that takes its output has stopped. -/
def Told (w : World) : StageKind → Prop
  | .source => w.signal = true ∨ w.extender.done = true
  | .extender => w.signal = true ∨ w.sink.done = true
  | .sink => w.signal = true

theorem Told.apply {stage : StageKind} (h : w.Told stage) (move : Move) : (w.apply job move).Told stage := by
  cases stage with
  | source => exact h.imp (signal_apply move) (done_apply move .extender)
  | extender => exact h.imp (signal_apply move) (done_apply move .sink)
  | sink => exact signal_apply move h

/-- Calls to the feed that a source which is to stop can still make. -/
def callsLeft (job : Job) (w : World) : Nat :=
  w.source.position.amount (Intake.callsLeft job.burst w.extender.done)

/-- Pops that a stage which is to stop can still make. -/
def popsLeft (w : World) : StageKind → Nat
  | .source => 0
  | .extender => w.extender.position.amount (Extension.popsLeft w.sink.done)
  | .sink => w.sink.position.amount Delivery.popsLeft

/-- Deliveries that a sink which is to stop can still make. -/
def deliveriesLeft (w : World) : Nat :=
  w.sink.position.amount Delivery.deliveriesLeft

theorem callsLeft_apply (htold : w.Told .source) (move : Move) :
    (w.apply job move).calls + (w.apply job move).callsLeft job ≤ w.calls + w.callsLeft job := by
  by_cases hstep : move = .step .source
  · subst hstep
    show (w.stepSource job).calls + (w.stepSource job).callsLeft job ≤ w.calls + w.callsLeft job
    rcases w.stepSource_cases job with ⟨s, hs, heq⟩ | ⟨-, heq⟩ <;> rw [heq]
    · have hspent := Intake.step_callsLeft job (o := w.sourceOutlet) htold w.calls s
      simp only [callsLeft, hs]
      exact hspent
    · exact Nat.add_le_add_left
        (Worker.amount_advance _ _ w.source w.signal (Intake.callsLeft job.burst w.extender.done) rfl) w.calls
  · obtain ⟨hpos, hcalls⟩ := apply_of_ne_source job w hstep
    rw [hcalls, callsLeft, hpos]
    exact Nat.add_le_add_left (Position.amount_mono (Intake.callsLeft_anti _ (done_apply move .extender)) _) _

theorem popsLeft_apply_le {stage : StageKind} (htold : w.Told stage) (move : Move) :
    (w.apply job move).popsLeft stage ≤ w.popsLeft stage := by
  cases stage with
  | source => exact le_rfl
  | extender =>
    by_cases hstep : move = .step .extender
    · subst hstep
      show (w.stepExtender job).popsLeft .extender ≤ w.popsLeft .extender
      rcases w.stepExtender_cases job with ⟨s, hs, heq⟩ | ⟨-, heq⟩ <;> rw [heq]
      · simp only [popsLeft, hs]
        exact Extension.step_popsLeft_le (o := w.extenderOutlet) htold s
      · exact Worker.amount_advance _ _ _ _ _ rfl
    · simp only [popsLeft, apply_of_ne_extender job w hstep]
      exact Position.amount_mono (Extension.popsLeft_anti (done_apply move .sink)) _
  | sink =>
    by_cases hstep : move = .step .sink
    · subst hstep
      show (w.stepSink job).popsLeft .sink ≤ w.popsLeft .sink
      rcases w.stepSink_cases job with ⟨s, hs, heq⟩ | ⟨-, heq⟩ <;> rw [heq]
      · simp only [popsLeft, hs]
        exact Delivery.step_popsLeft_le fun _ => htold
      · exact Worker.amount_advance _ _ _ _ _ rfl
    · simp only [popsLeft, (apply_of_ne_sink job w hstep).1]
      exact le_rfl

theorem deliveriesLeft_apply (job : Job) (htold : w.Told .sink) (move : Move) :
    (w.apply job move).delivered.size + (w.apply job move).deliveriesLeft ≤ w.delivered.size + w.deliveriesLeft := by
  by_cases hstep : move = .step .sink
  · subst hstep
    show (w.stepSink job).delivered.size + (w.stepSink job).deliveriesLeft ≤ _
    rcases w.stepSink_cases job with ⟨s, hs, heq⟩ | ⟨-, heq⟩ <;> rw [heq]
    · simp only [deliveriesLeft, hs]
      exact Delivery.step_deliveriesLeft fun _ => htold
    · exact Nat.add_le_add_left
        (Worker.amount_advance _ _ w.sink w.signal Delivery.deliveriesLeft rfl) w.delivered.size
  · obtain ⟨hpos, hdelivered⟩ := apply_of_ne_sink job w hstep
    rw [hdelivered, deliveriesLeft, hpos]
    exact le_rfl

/-- What no move makes grow as long as a stage is to stop is no greater at the end. -/
theorem applyAll_le {stage : StageKind} (amount : World → Nat)
    (hmove : ∀ (v : World) (move : Move), v.Told stage → amount (v.apply job move) ≤ amount v) (htold : w.Told stage)
    (moves : List Move) : amount (w.applyAll job moves) ≤ amount w := by
  induction moves generalizing w with
  | nil => exact le_rfl
  | cons move moves ih => exact (ih (htold.apply move)).trans (hmove w move htold)

/-! ## Counting pops -/

/-- How many items the next step of a stage pops from the ring in front of it. -/
def popping (job : Job) (w : World) : StageKind → Nat
  | .source => 0
  | .extender => w.extender.position.amount (Extension.popping job w.inbound)
  | .sink => w.sink.position.amount (Delivery.popping w.outbound)

theorem popping_extender {s : Extension} (hs : w.extender.position = .loop s) :
    w.popping job .extender = s.popping job w.inbound := by
  unfold popping
  rw [hs]
  rfl

theorem popping_sink {s : Delivery} (hs : w.sink.position = .loop s) :
    w.popping job .sink = s.popping w.outbound := by
  unfold popping
  rw [hs]
  rfl

/-- What a step of the extender pops is what the inbound ring loses in it. -/
theorem popping_extender_add_length (job : Job) (hin : w.inbound.AtRest) :
    w.popping job .extender + (w.stepExtender job).inbound.toList.length = w.inbound.toList.length := by
  rcases w.stepExtender_cases job with ⟨s, hs, heq⟩ | ⟨hout, heq⟩ <;> rw [heq]
  · rw [popping_extender hs]
    exact Extension.popping_add_length job w.source.done w.extenderOutlet hin s
  · have hidle : w.popping job .extender = 0 := Position.amount_of_ne hout
    rw [hidle, Nat.zero_add]

/-- What a step of the sink pops is what the outbound ring loses in it. -/
theorem popping_sink_add_length (job : Job) (hout : w.outbound.AtRest) :
    w.popping job .sink + (w.stepSink job).outbound.toList.length = w.outbound.toList.length := by
  rcases w.stepSink_cases job with ⟨s, hs, heq⟩ | ⟨hloop, heq⟩ <;> rw [heq]
  · rw [popping_sink hs]
    exact Delivery.popping_add_length job w.signal w.extender.done w.delivered hout s
  · have hidle : w.popping job .sink = 0 := Position.amount_of_ne hloop
    rw [hidle, Nat.zero_add]

/-- The pops of a stage among moves that are made one after the other: how many items each of them takes, where it
takes any. -/
def pops (job : Job) (stage : StageKind) (w : World) : List Move → List Nat
  | [] => []
  | move :: moves =>
    let later := (w.apply job move).pops job stage moves
    if move = .step stage ∧ w.popping job stage ≠ 0 then w.popping job stage :: later else later

theorem popsLeft_of_popping {stage : StageKind} (h : w.popping job stage ≠ 0) :
    (w.step job stage).popsLeft stage < w.popsLeft stage := by
  cases stage with
  | source => exact absurd rfl h
  | extender =>
    show (w.stepExtender job).popsLeft .extender < w.popsLeft .extender
    rcases w.stepExtender_cases job with ⟨s, hs, heq⟩ | ⟨hout, -⟩
    · rw [popping_extender hs] at h
      rw [heq]
      simp only [popsLeft, hs]
      exact Extension.popsLeft_of_popping (o := w.extenderOutlet) h
    · exact absurd (Position.amount_of_ne hout) h
  | sink =>
    show (w.stepSink job).popsLeft .sink < w.popsLeft .sink
    rcases w.stepSink_cases job with ⟨s, hs, heq⟩ | ⟨hout, -⟩
    · rw [popping_sink hs] at h
      rw [heq]
      simp only [popsLeft, hs]
      exact Delivery.popsLeft_of_popping h
    · exact absurd (Position.amount_of_ne hout) h

/-- A stage that is to stop pops only as often as it still can. -/
theorem length_pops_le {stage : StageKind} (htold : w.Told stage) (moves : List Move) :
    (w.pops job stage moves).length ≤ w.popsLeft stage := by
  induction moves generalizing w with
  | nil => exact Nat.zero_le _
  | cons move moves ih =>
    have hlater : ((w.apply job move).pops job stage moves).length ≤ (w.apply job move).popsLeft stage :=
      ih (htold.apply move)
    simp only [pops]
    split
    · rename_i hpop
      obtain ⟨rfl, hpop⟩ := hpop
      exact Nat.succ_le_of_lt (hlater.trans_lt (popsLeft_of_popping hpop))
    · exact hlater.trans (popsLeft_apply_le htold move)

/-- The extender takes no more than a burst at once. -/
theorem le_burst_of_mem_pops {moves : List Move} {n : Nat} (h : n ∈ w.pops job .extender moves) : n ≤ job.burst := by
  induction moves generalizing w with
  | nil => cases h
  | cons move moves ih =>
    simp only [pops] at h
    split at h
    · rcases List.mem_cons.1 h with rfl | hlater
      · exact Position.amount_le (Extension.popping_le job w.inbound) _
      · exact ih hlater
    · exact ih h

/-! ## Deliveries -/

/-- The last step that the sink made on the way to where the run stands was a delivery. -/
def DeliveredLast (job : Job) (w begun : World) : Prop :=
  ∃ before since, Reachable job begun before ∧ .step .sink ∉ since ∧
    before.delivered.size < (before.step job .sink).delivered.size ∧
    w = (before.step job .sink).applyAll job since

theorem Sound.deliveriesLeft_le (h : w.Sound job) : w.deliveriesLeft ≤ job.burst := by
  have hsink := h.sink
  unfold deliveriesLeft
  cases hpos : w.sink.position with
  | loop s =>
    rw [hpos] at hsink
    exact Delivery.Sound.deliveriesLeft_le hsink
  | bind | refused | enter | broken | leave | finish | ended => exact Nat.zero_le _

/-- A delivery leaves one delivery less of the burst that it belongs to. -/
theorem Sound.deliveriesLeft_lt (h : w.Sound job) (hdelivered : w.delivered.size < (w.step job .sink).delivered.size) :
    (w.step job .sink).deliveriesLeft < job.burst := by
  have hle := h.deliveriesLeft_le
  change _ < (w.stepSink job).delivered.size at hdelivered
  show (w.stepSink job).deliveriesLeft < job.burst
  rcases w.stepSink_cases job with ⟨s, hs, heq⟩ | ⟨-, heq⟩ <;> rw [heq] at hdelivered ⊢
  · have hmore : w.delivered.size < (s.step job w.outbound w.signal w.extender.done w.delivered).2.1.size := hdelivered
    have hpoint := Delivery.not_readSignal_of_delivered hmore
    have hspent : (s.step job w.outbound w.signal w.extender.done w.delivered).2.1.size +
        (s.step job w.outbound w.signal w.extender.done w.delivered).2.2.position.amount Delivery.deliveriesLeft ≤
          w.delivered.size + s.deliveriesLeft :=
      Delivery.step_deliveriesLeft fun hlook => absurd hlook hpoint
    simp only [deliveriesLeft, hs] at hle ⊢
    change s.deliveriesLeft ≤ job.burst at hle
    omega
  · exact absurd hdelivered (lt_irrefl _)

theorem deliveriesLeft_applyAll {moves : List Move} (hidle : .step .sink ∉ moves) :
    (w.applyAll job moves).deliveriesLeft = w.deliveriesLeft := by
  induction moves generalizing w with
  | nil => rfl
  | cons move moves ih =>
    rw [List.mem_cons, not_or] at hidle
    refine (ih hidle.2).trans ?_
    unfold deliveriesLeft
    rw [(apply_of_ne_sink job w (Ne.symm hidle.1)).1]

theorem DeliveredLast.deliveriesLeft_lt {begun : World} (h : w.DeliveredLast job begun) (hburst : 0 < job.burst)
    (hbegun : begun.Sound job) : w.deliveriesLeft < job.burst := by
  obtain ⟨before, since, hreach, hidle, hdelivered, rfl⟩ := h
  rw [deliveriesLeft_applyAll hidle]
  exact (hreach.sound hburst hbegun).deliveriesLeft_lt hdelivered

end World

namespace Pipeline

variable {p : Pipeline} {m : Machine} {load : Workload} {begun w : World}

/-- What the stages of a run still do after the signal was raised, whatever moves are made then, by them or from
outside. The source calls the feed no more often than a burst has items, the extender pops once at most, and so
does the sink, which delivers no more than a burst: one less if its last step was a delivery, as where the
receiver raises the signal. And if it is the neighbour behind a stage that has stopped, the same is true
of the source and the extender. -/
theorem stops_within_a_burst (hlaunch : p.launch m = .ok begun)
    (hreach : World.Reachable (p.job m load) begun w) (moves : List World.Move) :
    let later := w.applyAll (p.job m load) moves
    let extenderPops := w.pops (p.job m load) .extender moves
    let sinkPops := w.pops (p.job m load) .sink moves
    (w.signal = true →
      later.calls ≤ w.calls + p.config.burst ∧
        (extenderPops.length ≤ 1 ∧ ∀ n ∈ extenderPops, n ≤ p.config.burst) ∧
        sinkPops.length ≤ 1 ∧ later.delivered.size ≤ w.delivered.size + p.config.burst ∧
        (w.DeliveredLast (p.job m load) begun →
          later.delivered.size ≤ w.delivered.size + (p.config.burst - 1))) ∧
    (w.extender.done = true → later.calls ≤ w.calls + p.config.burst) ∧
    (w.sink.done = true → extenderPops.length ≤ 1 ∧ ∀ n ∈ extenderPops, n ≤ p.config.burst) := by
  intro later extenderPops sinkPops
  have hsound := reachable_sound hlaunch hreach
  have hcalls : w.Told .source → later.calls ≤ w.calls + p.config.burst := by
    intro htold
    have hspent := World.applyAll_le (fun v => v.calls + v.callsLeft (p.job m load))
      (fun v move hv => World.callsLeft_apply hv move) htold moves
    have hle : w.callsLeft (p.job m load) ≤ p.config.burst :=
      Position.amount_le (Intake.callsLeft_le p.config.burst_pos _) _
    exact (Nat.le_add_right _ _).trans (hspent.trans (Nat.add_le_add_left hle _))
  have hpops : w.Told .extender → extenderPops.length ≤ 1 ∧ ∀ n ∈ extenderPops, n ≤ p.config.burst := by
    intro htold
    exact ⟨(World.length_pops_le htold moves).trans (Position.amount_le (Extension.popsLeft_le _) _),
      fun n hn => World.le_burst_of_mem_pops hn⟩
  refine ⟨fun hsignal => ?_, fun hdone => hcalls (.inr hdone), fun hdone => hpops (.inr hdone)⟩
  have htold : w.Told .sink := hsignal
  have hspent : later.delivered.size ≤ w.delivered.size + w.deliveriesLeft :=
    (Nat.le_add_right _ _).trans (World.applyAll_le (fun v => v.delivered.size + v.deliveriesLeft)
      (fun v move hv => World.deliveriesLeft_apply _ hv move) htold moves)
  refine ⟨hcalls (.inl hsignal), hpops (.inl hsignal), ?_, ?_, ?_⟩
  · exact (World.length_pops_le htold moves).trans (Position.amount_le Delivery.popsLeft_le _)
  · exact hspent.trans (Nat.add_le_add_left hsound.deliveriesLeft_le _)
  · intro hlast
    have hlt : w.deliveriesLeft < p.config.burst := hlast.deliveriesLeft_lt p.config.burst_pos (launch_sound hlaunch)
    omega

/-- A pipeline with two rings of two slots, whose bursts hold two items. -/
def pairs : Pipeline where
  config :=
    { (narrow none).config with
      outbound := (narrow none).config.inbound
      burst := 2
      burst_pos := Nat.two_pos
      burst_le := le_rfl }
  signal := false
  states := ⟨.stopped, .stopped, .stopped⟩

/-- The sink has just delivered the first of two values when the signal is raised, the extender is about to pop,
and the source to pull. All three go as far as they may: the extender pops two items, the source calls the feed
twice, and the sink delivers the second value. -/
theorem stopped_pairs_complete_bursts :
    let job := pairs.job .willing endless
    let begun := World.start false ⟨.stopped, .stopped, .stopped⟩ (.empty ⟨1, by decide⟩)
      (.empty ⟨1, by decide⟩)
    let before := begun.applyAll job
      ((List.replicate 7 StageKind.source ++ List.replicate 6 StageKind.extender ++
        List.replicate 4 StageKind.sink ++ List.replicate 7 StageKind.source ++
        List.replicate 2 StageKind.extender).map .step)
    let w := (before.apply job (.step .sink)).apply job .raiseSignal
    let moves := (List.replicate 20 [StageKind.source, .extender, .sink]).flatten.map .step
    let later := w.applyAll job moves
    w.signal = true ∧ w.DeliveredLast job begun ∧ later.calls = w.calls + 2 ∧ w.pops job .extender moves = [2] ∧
      later.delivered.size = w.delivered.size + 1 := by
  intro job begun before w moves later
  have hbefore : World.Reachable job begun before := .steps .begun _
  have hreach : World.Reachable job begun w := .raise (.step .sink hbefore)
  have hsignal : w.signal = true := rfl
  have hlast : w.DeliveredLast job begun :=
    ⟨before, [.raiseSignal], hbefore, by decide, by decide +kernel, rfl⟩
  obtain ⟨hstop, -⟩ := stops_within_a_burst (p := pairs) (m := .willing) rfl hreach moves
  have hcalled : w.calls + 2 ≤ later.calls := by decide +kernel
  have hpops : w.pops job .extender moves = [2] := by decide +kernel
  have hmore : w.delivered.size + 1 ≤ later.delivered.size := by decide +kernel
  have hburst : pairs.config.burst = 2 := rfl
  rw [hburst] at hstop
  obtain ⟨hcalls, -, -, -, hdelivered⟩ := hstop hsignal
  exact ⟨hsignal, hlast, le_antisymm hcalls hcalled, hpops, le_antisymm (hdelivered hlast) hmore⟩

end Pipeline

end TimestampRelay
