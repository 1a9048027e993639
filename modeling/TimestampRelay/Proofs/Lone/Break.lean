/-
How a stage breaks off. Where the feed does so, the source has pushed the whole bursts that it pulled and nothing of
the one that it was pulling. Where the receiver does so, the sink has made that delivery and none behind it; what it
popped with it is lost, less than a burst, and the rest is still in the ring. Either way the stage raises the signal,
shows that it has stopped, and sets its completion flag, whatever others do meanwhile.
-/
import TimestampRelay.Proofs.Lone.Sink
import TimestampRelay.Proofs.Lone.Source
import TimestampRelay.Proofs.Run.Backpressure
import TimestampRelay.Proofs.Run.Containment

namespace TimestampRelay

/-! ## The way out -/

namespace Worker

variable {β : Type} {job : Job} {kind : StageKind} {first : β} {worker : Worker β} {broke : Prop} {cut : β → Prop}
  {signal : Bool}

/-- How far a stage is on its way out. Where something broke it off, its loop stood as one that is cut off does; from
there the stage raises the signal, shows that it has stopped, and sets its completion flag, in this order. Anywhere else
nothing has broken it off. -/
def Unwinds (broke : Prop) (cut : β → Prop) (signal : Bool) (worker : Worker β) : Prop :=
  match worker.position with
  | .broken last => cut last
  | .leave (.broken last) => cut last ∧ signal = true
  | .finish (.broken last) => cut last ∧ signal = true ∧ worker.state = .stopped
  | .ended (.broken last) => cut last ∧ signal = true ∧ worker.state = .stopped ∧ worker.done = true
  | _ => ¬broke

theorem Unwinds.of_loop {s : β} (h : worker.Unwinds broke cut signal) (hs : worker.position = .loop s) : ¬broke := by
  unfold Unwinds at h
  rw [hs] at h
  exact h

theorem Unwinds.mono {signal' : Bool} (h : worker.Unwinds broke cut signal) (hsignal : signal = true → signal' = true) :
    worker.Unwinds broke cut signal' := by
  obtain ⟨position, state, done⟩ := worker
  cases position with
  | leave ending =>
    cases ending with
    | broken last => exact ⟨h.1, hsignal h.2⟩
    | returned | unpinned => exact h
  | finish ending | ended ending =>
    cases ending with
    | broken last => exact ⟨h.1, hsignal h.2.1, h.2.2⟩
    | returned | unpinned => exact h
  | bind | refused | enter | loop | broken => exact h

theorem Unwinds.advance (h : worker.Unwinds broke cut signal) :
    (worker.advance job kind first signal).1.Unwinds broke cut (worker.advance job kind first signal).2 := by
  obtain ⟨position, state, done⟩ := worker
  cases position with
  | bind => rcases afterBind_eq (β := β) job kind with heq | ⟨core, cause, heq⟩ <;> simpa only [Worker.advance, heq]
  | broken last => exact ⟨h, rfl⟩
  | leave ending =>
    cases ending with
    | broken last => exact ⟨h.1, h.2, rfl⟩
    | returned | unpinned => exact h
  | finish ending =>
    cases ending with
    | broken last => exact ⟨h.1, h.2.1, h.2.2, rfl⟩
    | returned | unpinned => exact h
  | refused | enter | loop | ended => exact h

theorem Unwinds.next {next : Next β} (htells : next.Tells broke) (hcut : ∀ last, next = .broken last → cut last)
    (signal : Bool) (state : StageState) (done : Bool) :
    Unwinds broke cut signal ⟨next.position, state, done⟩ := by
  cases next with
  | loop | exit => exact htells
  | broken last => exact hcut last rfl

/-- Where a stage stands that something broke off. -/
theorem Unwinds.way_out (h : worker.Unwinds broke cut signal) (hbroke : broke) :
    ∃ last, cut last ∧
      (worker.position = .broken last ∨ worker.position = .leave (.broken last) ∨
        worker.position = .finish (.broken last) ∨
        worker.position = .ended (.broken last) ∧ signal = true ∧ worker.state = .stopped ∧ worker.done = true) := by
  obtain ⟨position, state, done⟩ := worker
  cases position with
  | broken last => exact ⟨last, h, .inl rfl⟩
  | leave ending =>
    cases ending with
    | broken last => exact ⟨last, h.1, .inr (.inl rfl)⟩
    | returned | unpinned => exact absurd hbroke h
  | finish ending =>
    cases ending with
    | broken last => exact ⟨last, h.1, .inr (.inr (.inl rfl))⟩
    | returned | unpinned => exact absurd hbroke h
  | ended ending =>
    cases ending with
    | broken last => exact ⟨last, h.1, .inr (.inr (.inr ⟨rfl, h.2⟩))⟩
    | returned | unpinned => exact absurd hbroke h
  | bind | refused | enter | loop => exact absurd hbroke h

theorem Unwinds.last_cut (h : worker.Unwinds broke cut signal) (hbroke : broke) :
    ∃ last, worker.position.last? = some last ∧ cut last := by
  obtain ⟨last, hcut, hpos | hpos | hpos | ⟨hpos, -⟩⟩ := h.way_out hbroke
  all_goals exact ⟨last, by rw [hpos]; rfl, hcut⟩

theorem Unwinds.not_loop (h : worker.Unwinds broke cut signal) (hbroke : broke) (s : β) : worker.position ≠ .loop s :=
  fun hs => h.of_loop hs hbroke

/-- Three steps at most are left. -/
theorem Unwinds.patience_le (h : worker.Unwinds broke cut signal) (hbroke : broke) (loop : β → Nat) (entry : Nat) :
    worker.position.patience loop entry ≤ 3 := by
  obtain ⟨last, -, hpos | hpos | hpos | ⟨hpos, -⟩⟩ := h.way_out hbroke
  all_goals rw [hpos]; simp [Position.patience]

theorem Unwinds.ended (h : worker.Unwinds broke cut signal) (hbroke : broke) (hended : worker.hasEnded = true) :
    ∃ last, worker.position = .ended (.broken last) ∧ signal = true ∧ worker.state = .stopped ∧ worker.done = true := by
  obtain ⟨last, -, hpos | hpos | hpos | hpos⟩ := h.way_out hbroke
  · simp [hasEnded, hpos] at hended
  · simp [hasEnded, hpos] at hended
  · simp [hasEnded, hpos] at hended
  · exact ⟨last, hpos⟩

end Worker

/-! ## Where the loops are cut off -/

/-- The source at the call at which the feed broke off: behind whole bursts, it holds what it pulled of the next. -/
def Intake.CutOff (job : Job) (calls : Nat) (last : Intake) : Prop :=
  ∃ call, calls = call + 1 ∧ job.workload.Fed call ∧ last.held.length = call % job.burst

theorem Intake.Sound.cutOff {job : Job} {o : Outlet Descriptor} {calls : Nat} {s last : Intake}
    (hs : s.Sound job o.signal o.neighbourDone calls) (hwhole : s.Whole job)
    (hfine : ¬job.workload.FeedBroke calls) (h : (s.step job o calls).2.2 = .broken last) :
    last.CutOff job (s.step job o calls).2.1 := by
  have htells := Intake.step_tells hfine o s
  rw [h] at htells
  obtain rfl := Intake.eq_of_step_broken h
  obtain ⟨point, tally⟩ := last
  cases point with
  | pull held =>
    obtain ⟨hcount, hfed, -, hlt⟩ := hs
    obtain ⟨bursts, hbursts⟩ := hwhole
    change tally.received = job.burst * bursts at hbursts
    change tally.received + held.size = _ at hcount
    refine ⟨calls, rfl, hfed, ?_⟩
    show held.toList.length = calls % job.burst
    rw [Array.length_toList, ← hfed.length_answered, ← hcount, hbursts, Nat.mul_add_mod, Nat.mod_eq_of_lt hlt]
  | readSignal | readNeighbour | push => exact absurd htells hfine

/-- The sink at the first delivery at which the receiver broke off: less than a burst is left to deliver. -/
def Delivery.CutOff (job : Job) (delivered : Nat) (last : Delivery) : Prop :=
  ∃ before, delivered = before + 1 ∧ ¬job.workload.ReceiverBroke before ∧ last.held.length < job.burst

theorem Delivery.Sound.cutOff {job : Job} {upDone signal : Bool} {outbound : Ring UInt64} {delivered : Array UInt64}
    {s last : Delivery} (hs : s.Sound job upDone delivered.size)
    (hfine : ¬job.workload.ReceiverBroke delivered.size)
    (h : (s.step job outbound signal upDone delivered).2.2 = .broken last) :
    last.CutOff job (s.step job outbound signal upDone delivered).2.1.size := by
  have htells := Delivery.step_tells hfine outbound signal upDone s
  rw [h] at htells
  have hlt : last.held.length < job.burst := (Delivery.length_held_of_step_broken h).trans_le hs.length_held_le
  obtain ⟨point, count⟩ := s
  cases point with
  | deliver left size =>
    cases left with
    | nil => exact absurd htells hfine
    | cons value left => exact ⟨delivered.size, Array.size_push value, hfine, hlt⟩
  | readSignal | pop | readUpstream | recheck => exact absurd htells hfine

namespace World

variable {job : Job} {w : World} {stage : StageKind} {initial : List Descriptor} {stream : List UInt64}
  {pops : List Nat} {signal : Bool} {done : PerStage Bool} {inbound : Ring Descriptor} {outbound : Ring UInt64}
  {move : Move} {moves more : List Move}

/-! ## Unwinding among others -/

/-- A stage that broke off is on its way out. Nothing breaks the extender off. -/
def Unwinds (job : Job) (w : World) : StageKind → Prop
  | .source => w.source.Unwinds (w.Broke job .source) (Intake.CutOff job w.calls) w.signal
  | .extender => True
  | .sink => w.sink.Unwinds (w.Broke job .sink) (Delivery.CutOff job w.delivered.size) w.signal

theorem lone_unwinds (job : Job) (signal : Bool) (done : PerStage Bool) (inbound : Ring Descriptor)
    (outbound : Ring UInt64) (stage : StageKind) : (lone signal done inbound outbound).Unwinds job stage := by
  cases stage with
  | source =>
    rintro ⟨call, hlt, -⟩
    exact absurd hlt (Nat.not_lt_zero call)
  | extender => trivial
  | sink =>
    rintro ⟨n, hlt, -⟩
    exact absurd hlt (Nat.not_lt_zero n)

/-- A move leaves a stage on its way if the stage's own step does. -/
theorem Unwinds.apply (h : w.Unwinds job stage) (hmove : move.isBeside stage w = true)
    (hstep : (w.step job stage).Unwinds job stage) : (w.apply job move).Unwinds job stage := by
  cases move with
  | step actor =>
    obtain rfl : actor = stage := by simpa [Move.isBeside] using hmove
    exact hstep
  | raiseSignal =>
    cases stage with
    | source | sink => exact Worker.Unwinds.mono h fun _ => rfl
    | extender => trivial
  | finish other => cases stage <;> cases other <;> first | exact h | cases hmove
  | takeInbound | takeOutbound | offerInbound | offerOutbound => cases stage <;> exact h

/-- A stage that broke off is not in its loop, and outside of that it goes on its way. -/
theorem Unwinds.step_of_broke (h : w.Unwinds job stage) (hbroke : w.Broke job stage) :
    (w.step job stage).Unwinds job stage := by
  cases stage with
  | source =>
    show (w.stepSource job).Unwinds job .source
    rcases w.stepSource_cases job with ⟨s, hs, -⟩ | ⟨-, heq⟩
    · exact absurd hs (Worker.Unwinds.not_loop h hbroke s)
    · rw [heq]
      exact Worker.Unwinds.advance h
  | extender => trivial
  | sink =>
    show (w.stepSink job).Unwinds job .sink
    rcases w.stepSink_cases job with ⟨s, hs, -⟩ | ⟨-, heq⟩
    · exact absurd hs (Worker.Unwinds.not_loop h hbroke s)
    · rw [heq]
      exact Worker.Unwinds.advance h

theorem Unwinds.stepsLeft_le (h : w.Unwinds job stage) (hbroke : w.Broke job stage) : w.stepsLeft job stage ≤ 3 := by
  cases stage with
  | source | sink => exact Worker.Unwinds.patience_le h hbroke _ _
  | extender => exact hbroke.elim

theorem Unwinds.stepsLeft_step_le (h : w.Unwinds job stage) (hbroke : w.Broke job stage) :
    (w.step job stage).stepsLeft job stage ≤ w.stepsLeft job stage - 1 := by
  by_cases hended : w.hasEnded stage = true
  · rw [step_of_hasEnded hended, stepsLeft_eq_zero_iff.2 hended]
  refine Nat.le_sub_one_of_lt ?_
  cases stage with
  | source =>
    show (w.stepSource job).stepsLeft job .source < _
    rcases w.stepSource_cases job with ⟨s, hs, -⟩ | ⟨hout, heq⟩
    · exact absurd hs (Worker.Unwinds.not_loop h hbroke s)
    · rw [heq]
      exact Worker.patience_advance _ _ _ hended hout (Nat.le_add_left 1 _)
  | extender => exact hbroke.elim
  | sink =>
    show (w.stepSink job).stepsLeft job .sink < _
    rcases w.stepSink_cases job with ⟨s, hs, -⟩ | ⟨hout, heq⟩
    · exact absurd hs (Worker.Unwinds.not_loop h hbroke s)
    · rw [heq]
      exact Worker.patience_advance _ _ _ hended hout (Nat.le_add_left 1 _)

/-- Each step of a stage on its way out brings it closer to its end, and nothing that others do takes it back. -/
theorem Unwinds.applyAll (h : w.Unwinds job stage) (hbroke : w.Broke job stage)
    (hmoves : w.admits job stage moves = true) :
    (w.applyAll job moves).Unwinds job stage ∧ (w.applyAll job moves).Broke job stage ∧
      (w.applyAll job moves).stepsLeft job stage ≤ w.stepsLeft job stage - moves.count (.step stage) := by
  induction moves generalizing w with
  | nil => exact ⟨h, hbroke, le_rfl⟩
  | cons move moves ih =>
    rw [admits, Bool.and_eq_true] at hmoves
    obtain ⟨hmove, hrest⟩ := hmoves
    obtain ⟨hunwinds, hbroken, hle⟩ := ih (h.apply hmove (h.step_of_broke hbroke)) (hbroke.apply move) hrest
    refine ⟨hunwinds, hbroken, hle.trans ?_⟩
    by_cases hstep : move = .step stage
    · subst hstep
      have hown : (w.apply job (.step stage)).stepsLeft job stage ≤ w.stepsLeft job stage - 1 :=
        h.stepsLeft_step_le hbroke
      rw [List.count_cons_self]
      omega
    · rw [stepsLeft_apply_of_ne hstep, List.count_cons_of_ne hstep]

/-- A stage that broke off and has come to its end. -/
structure Unwound (stage : StageKind) (w : World) : Prop where
  result : w.result? stage = some (.error (.stagePanicked stage))
  state : w.states.get stage = .stopped
  done : w.done.get stage = true
  signal : w.signal = true

theorem Unwinds.unwound (h : w.Unwinds job stage) (hbroke : w.Broke job stage) (hended : w.hasEnded stage = true) :
    w.Unwound stage := by
  cases stage with
  | source =>
    obtain ⟨last, hpos, hsignal, hstate, hdone⟩ := Worker.Unwinds.ended h hbroke hended
    exact ⟨by simp only [result?, result?.ended?, hpos]; rfl, hstate, hdone, hsignal⟩
  | extender => exact hbroke.elim
  | sink =>
    obtain ⟨last, hpos, hsignal, hstate, hdone⟩ := Worker.Unwinds.ended h hbroke hended
    exact ⟨by simp only [result?, result?.ended?, hpos]; rfl, hstate, hdone, hsignal⟩

theorem Unwinds.unwound_of_count (h : w.Unwinds job stage) (hbroke : w.Broke job stage)
    (hmoves : w.admits job stage moves = true) (hcount : 3 ≤ moves.count (.step stage)) :
    (w.applyAll job moves).Unwound stage := by
  obtain ⟨hunwinds, hbroken, hle⟩ := h.applyAll hbroke hmoves
  have hthree := h.stepsLeft_le hbroke
  have hnone : (w.applyAll job moves).stepsLeft job stage = 0 := by omega
  exact hunwinds.unwound hbroken (stepsLeft_eq_zero_iff.1 hnone)

/-! ## Up to the break -/

theorem LoneSource.unwinds_step (h : w.LoneSource job initial) (hu : w.Unwinds job .source) :
    (w.step job .source).Unwinds job .source := by
  show (w.stepSource job).Unwinds job .source
  rcases w.stepSource_cases job with ⟨s, hs, heq⟩ | ⟨-, heq⟩ <;> rw [heq]
  · have hfine : ¬job.workload.FeedBroke w.calls := Worker.Unwinds.of_loop hu hs
    have hsound : s.Sound job w.sourceOutlet.signal w.sourceOutlet.neighbourDone w.calls := h.sound.of_loop hs
    exact Worker.Unwinds.next (Intake.step_tells hfine w.sourceOutlet s)
      (fun last hlast => hsound.cutOff (h.whole.of_loop hs) hfine hlast) _ _ _
  · exact Worker.Unwinds.advance hu

theorem LoneSink.unwinds_step (h : w.LoneSink job stream pops) (hu : w.Unwinds job .sink) :
    (w.step job .sink).Unwinds job .sink := by
  show (w.stepSink job).Unwinds job .sink
  rcases w.stepSink_cases job with ⟨s, hs, heq⟩ | ⟨-, heq⟩ <;> rw [heq]
  · have hfine : ¬job.workload.ReceiverBroke w.delivered.size := Worker.Unwinds.of_loop hu hs
    exact Worker.Unwinds.next (Delivery.step_tells hfine w.outbound w.signal w.extender.done s)
      (fun last hlast => (h.sound.of_loop hs).cutOff hfine hlast) _ _ _
  · exact Worker.Unwinds.advance hu

theorem admits_unwinds_source (hburst : 0 < job.burst) (hin : inbound.AtRest)
    (hmoves : (lone signal done inbound outbound).admits job .source moves = true) :
    ((lone signal done inbound outbound).applyAll job moves).Unwinds job .source := by
  have hboth : ((lone signal done inbound outbound).applyAll job moves).LoneSource job inbound.toList ∧
      ((lone signal done inbound outbound).applyAll job moves).Unwinds job .source := by
    refine admits_induction ⟨lone_source job signal done hin outbound, lone_unwinds _ _ _ _ _ _⟩
      (fun moves move ih hmove => ?_) hmoves
    obtain ⟨h, hu⟩ := ih
    rw [applyAll_concat]
    exact ⟨h.apply hburst hmove, hu.apply hmove (h.unwinds_step hu)⟩
  exact hboth.2

theorem admits_unwinds_sink (hout : outbound.AtRest)
    (hmoves : (lone signal done inbound outbound).admits job .sink moves = true) :
    ((lone signal done inbound outbound).applyAll job moves).Unwinds job .sink := by
  have hboth : (∃ stream pops, ((lone signal done inbound outbound).applyAll job moves).LoneSink job stream pops) ∧
      ((lone signal done inbound outbound).applyAll job moves).Unwinds job .sink := by
    refine admits_induction ⟨⟨_, _, lone_sink job signal done inbound hout⟩, lone_unwinds _ _ _ _ _ _⟩
      (fun moves move ih hmove => ?_) hmoves
    obtain ⟨⟨stream, pops, h⟩, hu⟩ := ih
    rw [applyAll_concat]
    exact ⟨⟨_, _, h.apply hmove⟩, hu.apply hmove (h.unwinds_step hu)⟩
  exact hboth.2

/-! ## What is left behind -/

/-- What a source leaves behind whose feed broke off: nothing more is called, and of the events that it pulled it pushed
the whole bursts, in order. -/
theorem LoneSource.pushed_whole (h : w.LoneSource job initial) (hu : w.Unwinds job .source) {call : Nat}
    (hcall : call < w.calls) (hbroken : job.workload.feed call = .broken) :
    w.calls = call + 1 ∧ (job.workload.answered call).length = call ∧
      w.outside.takenInbound.toList ++ w.inbound.toList =
        initial ++ (job.workload.answered call).take (job.burst * (call / job.burst)) := by
  obtain ⟨last, hlast, call', hcalls, hfed, hlength⟩ := Worker.Unwinds.last_cut hu ⟨call, hcall, hbroken⟩
  -- No call before the last one broke off.
  obtain rfl : call = call' := by
    rw [hcalls] at hcall
    rcases Nat.lt_succ_iff_lt_or_eq.1 hcall with hlt | heq
    · obtain ⟨d, hd⟩ := hfed call hlt
      cases hd.symm.trans hbroken
    · exact heq
  have hheld : w.source.held Intake.held = last.held := held_eq _ hlast
  have hitems := h.items
  rw [hcalls, Workload.answered_succ, hbroken, List.append_nil, hheld] at hitems
  have hcount : job.burst * (call / job.burst) + last.held.length = (job.workload.answered call).length := by
    rw [hlength, hfed.length_answered, Nat.div_add_mod]
  exact ⟨hcalls, hfed.length_answered, (Handoff.front_handed_on hitems hcount).1⟩

/-- What a sink leaves behind whose receiver broke off: this was its last delivery, and what it popped and did not
deliver is less than a burst. -/
theorem LoneSink.delivered_last (h : w.LoneSink job stream pops) (hu : w.Unwinds job .sink) {count : Nat}
    (hpos : 0 < count) (hcount : count ≤ w.delivered.size) (hbreaks : job.workload.breaksAt count = true) :
    w.delivered.size = count ∧ count ≤ pops.sum ∧ pops.sum < count + job.burst := by
  obtain ⟨n, rfl⟩ := Nat.exists_eq_add_one.2 hpos
  obtain ⟨last, hlast, before, hsize, hfine, hlength⟩ := Worker.Unwinds.last_cut hu ⟨n, hcount, hbreaks⟩
  have hheld : w.sink.held Delivery.held = last.held := held_eq _ hlast
  have hpopped := h.popped
  rw [hheld] at hpopped
  have hn : n = before := by
    rw [hsize] at hcount
    rcases Nat.lt_or_eq_of_le (Nat.le_of_succ_le_succ hcount) with hlt | heq
    · exact absurd ⟨n, hlt, hbreaks⟩ hfine
    · exact heq
  omega

/-- How a stage breaks off, whatever its rings hold and whatever others do meanwhile. If the feed breaks off at a call,
the source does not call it again. All calls before were answered with events, and of these it pushed the whole bursts,
in order and nothing else. If the receiver breaks off at a delivery, the sink makes no other. It has delivered the
front of what came into its ring, it has popped less than a burst more, and the ring holds the rest. Either way the
stage has unwound after three steps more. -/
theorem broken_off_leaves_front (hburst : 0 < job.burst) (signal : Bool) (done : PerStage Bool) (hin : inbound.AtRest)
    (hout : outbound.AtRest) :
    let begun := lone signal done inbound outbound
    (∀ moves, begun.admits job .source moves = true →
      let w := begun.applyAll job moves
      ∀ c < w.calls, job.workload.feed c = .broken →
        w.calls = c + 1 ∧ (job.workload.answered c).length = c ∧
          w.outside.takenInbound.toList ++ w.inbound.toList =
            inbound.toList ++ (job.workload.answered c).take (job.burst * (c / job.burst)) ∧
          ∀ more, w.admits job .source more = true → 3 ≤ more.count (.step .source) →
            (w.applyAll job more).Unwound .source) ∧
    ∀ moves, begun.admits job .sink moves = true →
      let w := begun.applyAll job moves
      let stream := begun.outboundStream job moves
      let p := (begun.pops job .sink moves).sum
      ∀ d, 0 < d → d ≤ w.delivered.size → job.workload.breaksAt d = true →
        w.delivered.size = d ∧ w.delivered.toList = stream.take d ∧ d ≤ p ∧ p < d + job.burst ∧
          w.outbound.toList = stream.drop p ∧
          ∀ more, w.admits job .sink more = true → 3 ≤ more.count (.step .sink) →
            (w.applyAll job more).Unwound .sink := by
  intro begun
  constructor
  · intro moves hmoves w c hcall hbroken
    have h : w.LoneSource job inbound.toList := admits_loneSource hburst hin hmoves
    have hu : w.Unwinds job .source := admits_unwinds_source hburst hin hmoves
    obtain ⟨hcalls, hanswered, hpushed⟩ := h.pushed_whole hu hcall hbroken
    have hbroke : w.Broke job .source := ⟨c, hcall, hbroken⟩
    exact ⟨hcalls, hanswered, hpushed, fun more hmore hcount => hu.unwound_of_count hbroke hmore hcount⟩
  · intro moves hmoves w stream p d hpos hdelivered hbreaks
    have h : w.LoneSink job stream (begun.pops job .sink moves) := admits_loneSink hout hmoves
    have hu : w.Unwinds job .sink := admits_unwinds_sink hout hmoves
    obtain ⟨hsize, hle, hlt⟩ := h.delivered_last hu hpos hdelivered hbreaks
    have hfront : w.delivered.toList = stream.take d := by
      rw [← hsize, ← h.items, List.append_assoc, List.take_left' Array.length_toList]
    have hbroke : w.Broke job .sink := by
      obtain ⟨n, rfl⟩ := Nat.exists_eq_add_one.2 hpos
      exact ⟨n, hdelivered, hbreaks⟩
    exact ⟨hsize, hfront, hle, hlt, h.split.2, fun more hmore hcount => hu.unwound_of_count hbroke hmore hcount⟩

end World

namespace Pipeline

/-- A feed that breaks off at its fourth call, and a receiver that does at the first delivery. -/
def snapping : Workload where
  feed := fun call => if call < 3 then .event ⟨0, 0, .ofNat call⟩ else .broken
  breaksAt := fun n => n == 1

/-- Bursts of two break off in their middle. The source has pushed the first two events when the call for the fourth
breaks off, and the third is lost. The sink has popped two values when the delivery of the first breaks off, the second
is lost, and what comes in later stays in the ring. -/
theorem pairs_broken_off_in_their_middle :
    let job := pairs.job .willing snapping
    let inbound : Ring Descriptor := Ring.startingAt ⟨1, by decide⟩ (0 - 1)
    let outbound : Ring UInt64 := Ring.startingAt ⟨1, by decide⟩ (0 - 1)
    let begun := World.lone false ⟨false, false, false⟩ inbound outbound
    let pulls := List.replicate 10 (World.Move.step .source)
    let deliveries : List World.Move :=
      [.step .sink, .offerOutbound [7, 8], .step .sink, .step .sink, .offerOutbound [9], .step .sink]
    let v := begun.applyAll job pulls
    let w := begun.applyAll job deliveries
    (begun.admits job .source pulls = true ∧ v.calls = 4 ∧ v.inbound.toList = [⟨0, 0, 0⟩, ⟨0, 0, 1⟩] ∧
        (v.applyAll job (List.replicate 3 (.step .source))).Unwound .source) ∧
      begun.admits job .sink deliveries = true ∧ begun.pops job .sink deliveries = [2] ∧
        w.delivered.toList = [7] ∧ w.outbound.toList = [9] ∧
        (w.applyAll job (List.replicate 3 (.step .sink))).Unwound .sink := by
  intro job inbound outbound begun pulls deliveries v w
  have hpulls : begun.admits job .source pulls = true := by decide +kernel
  have hdeliveries : begun.admits job .sink deliveries = true := by decide +kernel
  have hcalls : 3 < v.calls := by decide +kernel
  have hdelivered : 1 ≤ w.delivered.size := by decide +kernel
  have hin : inbound.AtRest := Ring.startingAt_atRest _ _
  have hout : outbound.AtRest := Ring.startingAt_atRest _ _
  have hburst : 0 < job.burst := Nat.two_pos
  obtain ⟨hsource, hsink⟩ := World.broken_off_leaves_front hburst false ⟨false, false, false⟩ hin hout
  have hbegun : World.lone false ⟨false, false, false⟩ inbound outbound = begun := rfl
  have hv : begun.applyAll job pulls = v := rfl
  have hw : begun.applyAll job deliveries = w := rfl
  rw [hbegun] at hsource hsink
  have hpulled := hsource pulls hpulls
  have hpopped := hsink deliveries hdeliveries
  simp only [hv] at hpulled
  simp only [hw] at hpopped
  obtain ⟨hcalls', -, hpushed, hsourceEnds⟩ := hpulled 3 hcalls rfl
  obtain ⟨-, hfront, -, -, hleft, hsinkEnds⟩ := hpopped 1 Nat.one_pos hdelivered rfl
  have hpops : begun.pops job .sink deliveries = [2] := by decide +kernel
  have hstream : begun.outboundStream job deliveries = [7, 8, 9] := by decide +kernel
  have htaken : v.outside.takenInbound.toList = [] := by decide +kernel
  have hempty : inbound.toList = [] := by decide +kernel
  have hwhole : (job.workload.answered 3).take (job.burst * (3 / job.burst)) = [⟨0, 0, 0⟩, ⟨0, 0, 1⟩] := by
    decide +kernel
  rw [htaken, hempty, hwhole, List.nil_append, List.nil_append] at hpushed
  rw [hstream] at hfront
  rw [hstream, hpops] at hleft
  exact ⟨⟨hpulls, hcalls', hpushed, hsourceEnds _ (by decide +kernel) (by decide)⟩, hdeliveries, hpops, hfront, hleft,
    hsinkEnds _ (by decide +kernel) (by decide)⟩

end Pipeline

end TimestampRelay
