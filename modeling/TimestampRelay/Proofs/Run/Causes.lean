/-
Why the stages of a run stop. A stage that stopped because there was nothing more to take in stopped
behind its upstream neighbour, in front of an empty ring. A stage that stopped because its downstream
neighbour had stopped was not what that neighbour had waited for. And no stage fails without raising
the signal.
-/
import TimestampRelay.Proofs.Run.Order

namespace TimestampRelay

section Position

variable {β : Type}

/-- The reason for which a stage left its loop, if it did. -/
def Position.exit? : Position β → Option ExitReason
  | .leave (.returned _ exit) | .finish (.returned _ exit) | .ended (.returned _ exit) => some exit
  | _ => none

/-- The stage broke off or never ran, and has raised the signal. -/
def Position.hasFailed : Position β → Bool
  | .leave (.broken _) | .finish (.broken _) | .ended (.broken _) => true
  | .leave (.unpinned _ _) | .finish (.unpinned _ _) | .ended (.unpinned _ _) => true
  | _ => false

/-- A step of a loop that leads to an exit has its reasons. -/
theorem Next.Meets.left_of_exit? {loop : β → Prop} {left : β → ExitReason → Prop} {next : Next β}
    (h : next.Meets loop left) {exit : ExitReason} (hexit : next.position.exit? = some exit) :
    ∃ last, next = .exit last exit ∧ left last exit := by
  cases next with
  | loop | broken => cases hexit
  | exit last reason =>
    cases hexit
    exact ⟨last, rfl, h⟩

/-- A stage that has returned from its loop had its reasons. -/
theorem Position.Meets.left_of_exit? {loop : β → Prop} {left : β → ExitReason → Prop}
    {position : Position β} (h : position.Meets loop left) {exit : ExitReason} (hexit : position.exit? = some exit) :
    ∃ last, left last exit := by
  cases position with
  | leave ending | finish ending | ended ending =>
    cases ending with
    | returned last reason =>
      cases hexit
      exact ⟨last, h⟩
    | broken | unpinned => cases hexit
  | bind | refused | enter | loop | broken => cases hexit

namespace Worker

variable {job : Job} {kind : StageKind} {first : β} {w : Worker β} {signal : Bool}

/-- A stage whose completion flag is set exactly when it has ended, and whose failure raised the signal. -/
structure Honest (w : Worker β) (signal : Bool) : Prop where
  done_eq : w.done = w.hasEnded
  alarm : w.position.hasFailed = true → signal = true

theorem Honest.mono (h : w.Honest signal) {signal' : Bool} (hsignal : signal = true → signal' = true) :
    w.Honest signal' :=
  ⟨h.done_eq, fun hfailed => hsignal (h.alarm hfailed)⟩

theorem Honest.not_done {s : β} (h : w.Honest signal) (hs : w.position = .loop s) : w.done ≠ true := by
  have hended : w.hasEnded = false := by
    unfold hasEnded
    rw [hs]
  rw [h.done_eq, hended]
  exact Bool.false_ne_true

/-- A step of its loop neither ends a stage nor makes it fail. -/
theorem Honest.next {s : β} (h : w.Honest signal) (hs : w.position = .loop s) (next : Next β)
    (state : StageState) : Honest { w with state := state, position := next.position } signal := by
  have hdone : w.done = false := Bool.eq_false_iff.2 (h.not_done hs)
  constructor
  · show w.done = _
    rw [hdone]
    cases next <;> rfl
  · intro hfailed
    cases next <;> cases hfailed

theorem exit?_advance (job : Job) (kind : StageKind) (first : β) (w : Worker β) (signal : Bool) :
    (w.advance job kind first signal).1.position.exit? = w.position.exit? := by
  obtain ⟨position, state, done⟩ := w
  cases position with
  | bind =>
    show (afterBind job kind : Position β).exit? = none
    rcases afterBind_eq (β := β) job kind with h | ⟨core, cause, h⟩ <;> rw [h] <;> rfl
  | leave ending | finish ending => cases ending <;> rfl
  | refused | enter | loop | broken | ended => rfl

theorem Honest.advance (h : w.Honest signal) :
    (w.advance job kind first signal).1.Honest (w.advance job kind first signal).2 := by
  obtain ⟨hdone, halarm⟩ := h
  obtain ⟨position, state, done⟩ := w
  cases position with
  | bind =>
    rcases afterBind_eq (β := β) job kind with heq | ⟨core, cause, heq⟩ <;>
      simp only [Worker.advance, heq] <;> exact ⟨hdone, fun hfailed => nomatch hfailed⟩
  | leave ending =>
    refine ⟨hdone, fun hfailed => halarm ?_⟩
    cases ending <;> exact hfailed
  | finish ending =>
    refine ⟨rfl, fun hfailed => halarm ?_⟩
    cases ending <;> exact hfailed
  | refused | broken => exact ⟨hdone, fun _ => rfl⟩
  | enter => exact ⟨hdone, fun hfailed => nomatch hfailed⟩
  | loop | ended => exact ⟨hdone, halarm⟩

end Worker

end Position

namespace World

variable {job : Job} {w : World}

/-- The stages of a run stopped for causes that lie with their neighbours. -/
structure Causes (w : World) : Prop where
  source : w.source.Honest w.signal
  extender : w.extender.Honest w.signal
  sink : w.sink.Honest w.signal
  /-- A source that gave up had an extender that stopped before it ran out of input. -/
  sourceStopped : w.source.position.exit? = some .downstreamStopped →
    w.extender.done = true ∧ w.extender.position.exit? ≠ some .inputExhausted
  extenderStopped : w.extender.position.exit? = some .downstreamStopped →
    w.sink.done = true ∧ w.sink.position.exit? ≠ some .inputExhausted
  /-- An extender that ran out of input had a source that stopped, and left nothing between them. -/
  extenderExhausted : w.extender.position.exit? = some .inputExhausted →
    w.source.done = true ∧ w.inbound.toList = []
  sinkExhausted : w.sink.position.exit? = some .inputExhausted →
    w.extender.done = true ∧ w.outbound.toList = []

theorem start_causes (signal : Bool) (states : PerStage StageState) (inbound : Ring Descriptor)
    (outbound : Ring UInt64) : (World.start signal states inbound outbound).Causes := by
  constructor
  case source | extender | sink => exact ⟨rfl, fun hfailed => nomatch hfailed⟩
  all_goals exact fun hexit => nomatch hexit

theorem Causes.stepSource (hburst : 0 < job.burst) (h : w.Causes) (hs : w.Sound job) :
    (w.stepSource job).Causes := by
  rcases w.stepSource_cases job with ⟨s, hpos, heq⟩ | ⟨-, heq⟩
  · have hstep := Intake.Sound.step (o := w.sourceOutlet) (hs.source.of_loop hpos) hburst hs.inbound
    -- The extender cannot have run out of input: the source has not stopped.
    have hextender : w.extender.position.exit? ≠ some .inputExhausted := fun hexit =>
      h.source.not_done hpos (h.extenderExhausted hexit).1
    rw [heq]
    refine { h with source := h.source.next hpos _ _, sourceStopped := ?_, extenderExhausted := ?_ }
    · intro hexit
      obtain ⟨last, -, -, -, -, -, hdone⟩ := hstep.meets.left_of_exit? hexit
      exact ⟨hdone, hextender⟩
    · intro hexit
      exact absurd hexit hextender
  · have hexit := Worker.exit?_advance job .source Intake.first w.source w.signal
    rw [heq]
    refine ⟨h.source.advance, h.extender.mono Worker.signal_advance, h.sink.mono Worker.signal_advance,
      ?_, h.extenderStopped, ?_, h.sinkExhausted⟩
    · intro hstopped
      exact h.sourceStopped (hexit ▸ hstopped)
    · intro hexhausted
      exact ⟨Worker.done_advance (h.extenderExhausted hexhausted).1, (h.extenderExhausted hexhausted).2⟩

theorem Causes.stepExtender (h : w.Causes) (hs : w.Sound job) : (w.stepExtender job).Causes := by
  rcases w.stepExtender_cases job with ⟨s, hpos, heq⟩ | ⟨-, heq⟩
  · have hstep := Extension.Sound.step (o := w.extenderOutlet) (hs.extender.of_loop hpos) hs.inbound
      hs.outbound
    -- Neither neighbour can have stopped because of the extender, which has not stopped.
    have hsource : w.source.position.exit? ≠ some .downstreamStopped := fun hexit =>
      h.extender.not_done hpos (h.sourceStopped hexit).1
    have hsink : w.sink.position.exit? ≠ some .inputExhausted := fun hexit =>
      h.extender.not_done hpos (h.sinkExhausted hexit).1
    rw [heq]
    refine ⟨h.source, h.extender.next hpos _ _, h.sink, ?_, ?_, ?_, ?_⟩
    · intro hexit
      exact absurd hexit hsource
    · intro hexit
      obtain ⟨last, -, -, -, hdone⟩ := hstep.meets.left_of_exit? hexit
      exact ⟨hdone, hsink⟩
    · intro hexit
      obtain ⟨last, hlast, -, -, hdone, -⟩ := hstep.meets.left_of_exit? hexit
      exact ⟨hdone, hstep.exhausted last hlast⟩
    · intro hexit
      exact absurd hexit hsink
  · have hexit := Worker.exit?_advance job .extender (Extension.first job.start) w.extender w.signal
    rw [heq]
    refine ⟨h.source.mono Worker.signal_advance, h.extender.advance, h.sink.mono Worker.signal_advance,
      ?_, ?_, ?_, ?_⟩
    · intro hstopped
      obtain ⟨hdone, hne⟩ := h.sourceStopped hstopped
      exact ⟨Worker.done_advance hdone, fun hexhausted => hne (hexit ▸ hexhausted)⟩
    · intro hstopped
      exact h.extenderStopped (hexit ▸ hstopped)
    · intro hexhausted
      exact h.extenderExhausted (hexit ▸ hexhausted)
    · intro hexhausted
      exact ⟨Worker.done_advance (h.sinkExhausted hexhausted).1, (h.sinkExhausted hexhausted).2⟩

theorem Causes.stepSink (h : w.Causes) (hs : w.Sound job) : (w.stepSink job).Causes := by
  rcases w.stepSink_cases job with ⟨s, hpos, heq⟩ | ⟨-, heq⟩
  · have hstep := Delivery.Sound.step (hs.sink.of_loop hpos) hs.outbound w.signal
    -- The extender cannot have stopped because of the sink, which has not stopped.
    have hextender : w.extender.position.exit? ≠ some .downstreamStopped := fun hexit =>
      h.sink.not_done hpos (h.extenderStopped hexit).1
    rw [heq]
    refine ⟨h.source, h.extender, h.sink.next hpos _ _, h.sourceStopped, ?_, h.extenderExhausted, ?_⟩
    · intro hexit
      exact absurd hexit hextender
    · intro hexit
      obtain ⟨last, hlast, -, -, hdone, -⟩ := hstep.meets.left_of_exit? hexit
      exact ⟨hdone, hstep.exhausted last hlast⟩
  · have hexit := Worker.exit?_advance job .sink Delivery.first w.sink w.signal
    rw [heq]
    refine ⟨h.source.mono Worker.signal_advance, h.extender.mono Worker.signal_advance, h.sink.advance,
      h.sourceStopped, ?_, h.extenderExhausted, ?_⟩
    · intro hstopped
      obtain ⟨hdone, hne⟩ := h.extenderStopped hstopped
      exact ⟨Worker.done_advance hdone, fun hexhausted => hne (hexit ▸ hexhausted)⟩
    · intro hexhausted
      exact h.sinkExhausted (hexit ▸ hexhausted)

theorem Causes.raiseSignal (h : w.Causes) : (w.apply job .raiseSignal).Causes :=
  { h with
    source := h.source.mono fun _ => rfl
    extender := h.extender.mono fun _ => rfl
    sink := h.sink.mono fun _ => rfl }

/-- In every state that an interleaving leads to, the stages stopped for these causes. -/
theorem Reachable.causes {begun : World} (hreach : Reachable job begun w) (hburst : 0 < job.burst)
    (hbegun : begun.Sound job) (hcauses : begun.Causes) : w.Causes := by
  induction hreach with
  | begun => exact hcauses
  | step stage hreach ih =>
    have hsound := hreach.sound hburst hbegun
    cases stage with
    | source => exact ih.stepSource hburst hsound
    | extender => exact ih.stepExtender hsound
    | sink => exact ih.stepSink hsound
  | raise _ ih => exact ih.raiseSignal

end World

end TimestampRelay
