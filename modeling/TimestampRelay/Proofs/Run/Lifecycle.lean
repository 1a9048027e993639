/-
The live states of the stages. In every run of a pipeline a stage is stopped, runs, may drain, and is
stopped again; the sink never drains. A stage that drains was told to stop with items in its hands, and
takes in nothing more. A stage whose completion flag is set does nothing more at all. And as long as no
one has raised the signal and the feed goes on, a delivery finds all three stages running.
-/
import TimestampRelay.Proofs.Run.Backpressure
import TimestampRelay.Proofs.Run.Containment

namespace TimestampRelay

/-! ## Phases -/

/-- How far a stage has come in a run. -/
inductive Phase where
  /-- It has not shown yet that it runs. -/
  | ahead
  | running
  | draining
  /-- It has shown that it has stopped. -/
  | behind
  deriving DecidableEq

namespace Phase

/-- The state that a stage shows. -/
def state : Phase → StageState
  | ahead | behind => .stopped
  | running => .running
  | draining => .draining

/-- The phases that one move can lead to. A stage that its core refuses stops before it runs. -/
inductive Leads (stage : StageKind) : Phase → Phase → Prop
  | stays (phase : Phase) : Leads stage phase phase
  | enters : Leads stage ahead running
  | refused : Leads stage ahead behind
  | drains (hne : stage ≠ .sink) : Leads stage running draining
  | stops : Leads stage running behind
  | dry : Leads stage draining behind

end Phase

/-- The states that a stage can show in turn in the course of a run. -/
def StageKind.lives : StageKind → List (List StageState)
  | .source | .extender => [[.stopped, .running, .stopped], [.stopped, .running, .draining, .stopped]]
  | .sink => [[.stopped, .running, .stopped]]

/-- What is left of these lives from a phase on. -/
def Phase.rests (stage : StageKind) : Phase → List (List StageState)
  | .ahead => stage.lives
  | .running => stage.lives.map List.tail
  | .draining => [[.draining, .stopped]]
  | .behind => [[.stopped]]

/-- A move adds to a life the state that it ends. -/
theorem Phase.Leads.rest {stage : StageKind} {p q : Phase} (h : p.Leads stage q) {later : List StageState}
    (hlater : later ∈ q.rests stage) :
    ∃ rest ∈ p.rests stage, (if q.state = p.state then later else p.state :: later) <+: rest := by
  revert later
  cases h with
  | stays =>
    intro later hlater
    exact ⟨later, hlater, by simp⟩
  | drains hne => cases stage <;> first | decide | exact absurd rfl hne
  | enters | refused | stops | dry => cases stage <;> decide

/-- A stage that no longer runs does not run again. -/
theorem Phase.Leads.late {stage : StageKind} {p q : Phase} (h : p.Leads stage q)
    (hlate : p = .draining ∨ p = .behind) : q = .draining ∨ q = .behind := by
  cases h with
  | stays => exact hlate
  | dry => exact .inr rfl
  | enters | refused | drains | stops => rcases hlate with hphase | hphase <;> cases hphase

theorem Phase.begins_rest (stage : StageKind) (p : Phase) : ∃ rest ∈ p.rests stage, [p.state] <+: rest := by
  cases p <;> cases stage <;> decide

/-! ## Stages that show what they do -/

section Worker

variable {β : Type} {past : β → Prop} {w : Worker β} {signal : Bool}

/-- The phase that a stage is in. -/
def Worker.phase (w : Worker β) : Phase :=
  match w.position with
  | .bind | .refused _ _ | .enter => .ahead
  | .loop _ | .broken _ | .leave _ => if w.state = .draining then .draining else .running
  | .finish _ | .ended _ => .behind

/-- A stage that shows that it has stopped unless it is active, and that it drains only under a raised signal
and where it is past taking anything in. -/
structure Worker.Shows (past : β → Prop) (signal : Bool) (w : Worker β) : Prop where
  atRest : w.AtRest
  active : w.position.isActive = true → w.state = .running ∨ w.state = .draining ∧ signal = true
  past : w.state = .draining → ∀ s, w.position = .loop s → past s

namespace Worker

theorem Shows.stopped (hrest : w.position.isActive = false) (hstate : w.state = .stopped) : w.Shows past signal := by
  constructor
  · exact fun _ => hstate
  · intro hactive
    cases hrest.symm.trans hactive
  · intro hdraining
    cases hstate.symm.trans hdraining

theorem Shows.mono {signal' : Bool} (h : w.Shows past signal) (hsignal : signal = true → signal' = true) :
    w.Shows past signal' :=
  ⟨h.atRest, fun hactive => (h.active hactive).imp_right (And.imp_right hsignal), h.past⟩

theorem Shows.state_phase (h : w.Shows past signal) : w.phase.state = w.state := by
  obtain ⟨hrest, hactive, -⟩ := h
  obtain ⟨position, state, done⟩ := w
  cases position with
  | bind | refused | enter | finish | ended => exact (hrest rfl).symm
  | loop | broken | leave =>
    rcases hactive rfl with hstate | ⟨hstate, -⟩ <;> cases hstate <;> rfl

theorem Shows.running_of_active (h : w.Shows past signal) (hactive : w.position.isActive = true)
    (hquiet : signal ≠ true) : w.state = .running := by
  rcases h.active hactive with hrunning | ⟨-, hsignal⟩
  · exact hrunning
  · exact absurd hsignal hquiet

theorem Shows.signal_of_draining (h : w.Shows past signal) (hdraining : w.state = .draining) : signal = true := by
  have hactive : w.position.isActive = true := by
    by_contra hrest
    cases hdraining.symm.trans (h.atRest (Bool.eq_false_of_not_eq_true hrest))
  rcases h.active hactive with hrunning | ⟨-, hsignal⟩
  · cases hdraining.symm.trans hrunning
  · exact hsignal

theorem not_active_of_hasEnded (h : w.hasEnded = true) : w.position.isActive = false := by
  obtain ⟨position, state, done⟩ := w
  cases position with
  | ended ending => rfl
  | bind | refused | enter | loop | broken | leave | finish => cases h

/-- A stage that is still in its loop and no longer runs drains, past taking anything in. -/
theorem Shows.past_of_phase {s : β} (h : w.Shows past signal) (hs : w.position = .loop s)
    (hlate : w.phase = .draining ∨ w.phase = .behind) : w.state = .draining ∧ past s := by
  have hdraining : w.state = .draining := by
    unfold phase at hlate
    rw [hs] at hlate
    by_contra hne
    simp [hne] at hlate
  exact ⟨hdraining, h.past hdraining s hs⟩

/-- Outside its loop a stage does not begin to drain. -/
theorem steady_advance (h : w.state ≠ .draining) (job : Job) (kind : StageKind) (first : β) (signal : Bool) :
    (w.advance job kind first signal).1.state ≠ .draining := by
  unfold advance
  split <;> first | exact h | simp

/-- Outside its loop a stage goes on to the next phase as it should. -/
theorem Shows.advance (h : w.Shows past signal) (job : Job) (kind : StageKind) (first : β) :
    (w.advance job kind first signal).1.Shows past (w.advance job kind first signal).2 ∧
      w.phase.Leads kind (w.advance job kind first signal).1.phase := by
  obtain ⟨hrest, hactive, hpast⟩ := h
  obtain ⟨position, state, done⟩ := w
  cases position with
  | bind =>
    have hstopped : state = .stopped := hrest rfl
    rcases afterBind_eq (β := β) job kind with heq | ⟨core, cause, heq⟩ <;> simp only [Worker.advance, heq]
    · exact ⟨.stopped rfl hstopped, .stays _⟩
    · exact ⟨.stopped rfl hstopped, .stays _⟩
  | refused => exact ⟨.stopped rfl (hrest rfl), .refused⟩
  | enter =>
    refine ⟨?_, .enters⟩
    constructor
    · rintro ⟨⟩
    · exact fun _ => .inl rfl
    · rintro ⟨⟩
  | broken last =>
    refine ⟨?_, .stays _⟩
    constructor
    · rintro ⟨⟩
    · exact fun _ => (hactive rfl).imp_right fun hdraining => ⟨hdraining.1, rfl⟩
    · rintro - s ⟨⟩
  | leave ending =>
    refine ⟨.stopped rfl rfl, ?_⟩
    rcases hactive rfl with hstate | ⟨hstate, -⟩ <;> cases hstate
    · exact .stops
    · exact .dry
  | finish => exact ⟨.stopped rfl (hrest rfl), .stays _⟩
  | loop | ended => exact ⟨⟨hrest, hactive, hpast⟩, .stays _⟩

/-- In its loop a stage goes on to the next phase as it should, if it changes its state only to show that it
drains, under a raised signal and past taking anything in, and then stays past that. -/
theorem Shows.next {s : β} (h : w.Shows past signal) (hs : w.position = .loop s) (kind : StageKind)
    {next : Next β} {state : StageState}
    (hdrains : state ≠ w.state → state = .draining ∧ kind ≠ .sink ∧ signal = true ∧ past s)
    (hpast : past s → signal = true → ∀ s', next = .loop s' → past s') :
    Shows past signal { w with state := state, position := next.position } ∧
      w.phase.Leads kind (phase { w with state := state, position := next.position }) := by
  have hphase : phase { w with state := state, position := next.position } =
      if state = .draining then .draining else .running := by
    cases next <;> rfl
  have hold : w.phase = if w.state = .draining then .draining else .running := by
    unfold phase
    rw [hs]
  have hactive := h.active (by rw [hs]; rfl)
  have hnext : ∀ s', next.position = .loop s' → next = .loop s' := by
    intro s' hs'
    cases next <;> cases hs'
    rfl
  rw [hphase, hold]
  by_cases hsame : state = w.state
  · subst hsame
    refine ⟨⟨.next _ _ _, fun _ => hactive, fun hdraining s' hs' => ?_⟩, .stays _⟩
    exact hpast (h.past hdraining s hs) (h.signal_of_draining hdraining) s' (hnext s' hs')
  · obtain ⟨rfl, hkind, hsignal, hs⟩ := hdrains hsame
    refine ⟨⟨.next _ _ _, fun _ => .inr ⟨rfl, hsignal⟩, fun _ s' hs' => ?_⟩, ?_⟩
    · exact hpast hs hsignal s' (hnext s' hs')
    · rcases hactive with hrunning | ⟨hdraining, -⟩
      · rw [hrunning]
        exact .drains hkind
      · exact absurd hdraining.symm hsame

end Worker

end Worker

/-! ## The loops -/

/-- A burst that is handed on changes its stage's state only to show that it drains. -/
theorem Handoff.step_state {α : Type} (drainRetries : Nat) (o : Outlet α) (h : Handoff α) :
    (h.step drainRetries o).1.state = o.state ∨
      h.point = .showDraining ∧ (h.step drainRetries o).1.state = .draining := by
  obtain ⟨held, pushed, point⟩ := h
  cases point with
  | showDraining => exact .inr ⟨rfl, rfl⟩
  | attempt | readSignal | drain | readNeighbour | «over» => exact .inl rfl

namespace Intake

variable {job : Job} {o : Outlet Descriptor} {calls : Nat} {s : Intake}

/-- The source is past pulling, unless it goes on to another burst. -/
def Past (s : Intake) : Prop :=
  match s.point with
  | .push _ _ | .readSignal => True
  | .readNeighbour | .pull _ => False

/-- The source begins to drain under a raised signal, with events in hand. -/
theorem Sound.step_state (hs : s.Sound job o.signal o.neighbourDone calls)
    (hne : (s.step job o calls).1.state ≠ o.state) :
    (s.step job o calls).1.state = .draining ∧ s.held ≠ [] ∧ o.signal = true ∧ s.Past := by
  obtain ⟨point, tally⟩ := s
  cases point with
  | readSignal | readNeighbour | pull => exact absurd rfl hne
  | push burst isLast =>
    obtain ⟨-, -, hburst, -⟩ := hs
    obtain ⟨hpoint, hdraining⟩ := (burst.step_state job.drainRetries o).resolve_left hne
    unfold Handoff.Sound at hburst
    rw [hpoint] at hburst
    exact ⟨hdraining, hburst.1, hburst.2, trivial⟩

/-- Under a raised signal a source that is past pulling stays so. -/
theorem Past.step (hpast : s.Past) (hsignal : o.signal = true) {s' : Intake}
    (hs' : (s.step job o calls).2.2 = .loop s') : s'.Past := by
  obtain ⟨point, tally⟩ := s
  cases point with
  | readSignal =>
    simp only [Intake.step, hsignal, if_true] at hs'
    cases hs'
  | readNeighbour | pull => exact hpast.elim
  | push burst isLast =>
    simp only [Intake.step, afterPush] at hs'
    split at hs'
    · split at hs'
      · cases hs'
      · split at hs' <;> cases hs'
        trivial
    · cases hs'
      trivial

end Intake

namespace Extension

variable {job : Job} {inbound : Ring Descriptor} {upDone : Bool} {o : Outlet UInt64} {s : Extension}

/-- The extender is past popping, unless it goes on to another burst. -/
def Past (s : Extension) : Prop :=
  match s.point with
  | .push _ | .readSignal => True
  | .readDownstream | .pop | .readUpstream | .recheck => False

/-- The extender begins to drain under a raised signal, with values in hand. -/
theorem Sound.step_state (hs : s.Sound job o.signal upDone o.neighbourDone)
    (hne : (s.step job inbound upDone o).2.1.state ≠ o.state) :
    (s.step job inbound upDone o).2.1.state = .draining ∧ s.held ≠ [] ∧ o.signal = true ∧ s.Past := by
  obtain ⟨point, unwrapper, tally⟩ := s
  cases point with
  | readSignal | readDownstream | pop | readUpstream | recheck => exact absurd rfl hne
  | push burst =>
    have hburst : burst.Sound o.signal o.neighbourDone := hs.1
    obtain ⟨hpoint, hdraining⟩ := (burst.step_state job.drainRetries o).resolve_left hne
    unfold Handoff.Sound at hburst
    rw [hpoint] at hburst
    exact ⟨hdraining, hburst.1, hburst.2, trivial⟩

/-- Under a raised signal an extender that is past popping stays so. -/
theorem Past.step (hpast : s.Past) (hsignal : o.signal = true) {s' : Extension}
    (hs' : (s.step job inbound upDone o).2.2 = .loop s') : s'.Past := by
  obtain ⟨point, unwrapper, tally⟩ := s
  cases point with
  | readSignal =>
    simp only [Extension.step, hsignal, if_true] at hs'
    cases hs'
  | readDownstream | pop | readUpstream | recheck => exact hpast.elim
  | push burst =>
    simp only [Extension.step, afterPush] at hs'
    split at hs'
    · split at hs' <;> cases hs'
      trivial
    · cases hs'
      trivial

end Extension

namespace World

variable {job : Job} {w begun : World} {stage : StageKind}

/-! ## Runs whose stages show what they do -/

/-- The phase that a stage of a run is in. -/
def phase (w : World) : StageKind → Phase
  | .source => w.source.phase
  | .extender => w.extender.phase
  | .sink => w.sink.phase

/-- All three stages show what they do. The sink hands nothing on, and so has nothing to drain. -/
structure Showing (w : World) : Prop where
  source : w.source.Shows Intake.Past w.signal
  extender : w.extender.Shows Extension.Past w.signal
  sink : w.sink.Shows (fun _ => True) w.signal
  sinkSteady : w.sink.state ≠ .draining

theorem start_showing (signal : Bool) (inbound : Ring Descriptor) (outbound : Ring UInt64) :
    (World.start signal ⟨.stopped, .stopped, .stopped⟩ inbound outbound).Showing := by
  refine ⟨.stopped rfl rfl, .stopped rfl rfl, .stopped rfl rfl, ?_⟩
  rintro ⟨⟩

theorem Showing.state_phase (h : w.Showing) (stage : StageKind) : (w.phase stage).state = w.states.get stage := by
  cases stage with
  | source => exact h.source.state_phase
  | extender => exact h.extender.state_phase
  | sink => exact h.sink.state_phase

theorem Showing.stepSource (h : w.Showing) (hs : w.Sound job) :
    (w.stepSource job).Showing ∧ ∀ stage, (w.phase stage).Leads stage ((w.stepSource job).phase stage) := by
  rcases w.stepSource_cases job with ⟨s, hpos, heq⟩ | ⟨-, heq⟩
  · have hsound : s.Sound job w.sourceOutlet.signal w.sourceOutlet.neighbourDone w.calls := hs.source.of_loop hpos
    obtain ⟨hshows, hleads⟩ := h.source.next hpos .source
      (fun hne => (hsound.step_state hne).imp_right fun hdrains => ⟨by decide, hdrains.2⟩)
      fun hpast hsignal _ hnext => hpast.step (o := w.sourceOutlet) hsignal hnext
    rw [heq]
    refine ⟨⟨hshows, h.extender, h.sink, h.sinkSteady⟩, fun stage => ?_⟩
    cases stage with
    | source => exact hleads
    | extender | sink => exact .stays _
  · obtain ⟨hshows, hleads⟩ := h.source.advance job .source Intake.first
    rw [heq]
    refine ⟨⟨hshows, h.extender.mono Worker.signal_advance, h.sink.mono Worker.signal_advance, h.sinkSteady⟩,
      fun stage => ?_⟩
    cases stage with
    | source => exact hleads
    | extender | sink => exact .stays _

theorem Showing.stepExtender (h : w.Showing) (hs : w.Sound job) :
    (w.stepExtender job).Showing ∧ ∀ stage, (w.phase stage).Leads stage ((w.stepExtender job).phase stage) := by
  rcases w.stepExtender_cases job with ⟨s, hpos, heq⟩ | ⟨-, heq⟩
  · have hsound : s.Sound job w.extenderOutlet.signal w.source.done w.extenderOutlet.neighbourDone :=
      hs.extender.of_loop hpos
    obtain ⟨hshows, hleads⟩ := h.extender.next hpos .extender
      (fun hne => (hsound.step_state hne).imp_right fun hdrains => ⟨by decide, hdrains.2⟩)
      fun hpast hsignal _ hnext => hpast.step (o := w.extenderOutlet) hsignal hnext
    rw [heq]
    refine ⟨⟨h.source, hshows, h.sink, h.sinkSteady⟩, fun stage => ?_⟩
    cases stage with
    | extender => exact hleads
    | source | sink => exact .stays _
  · obtain ⟨hshows, hleads⟩ := h.extender.advance job .extender (Extension.first job.start)
    rw [heq]
    refine ⟨⟨h.source.mono Worker.signal_advance, hshows, h.sink.mono Worker.signal_advance, h.sinkSteady⟩,
      fun stage => ?_⟩
    cases stage with
    | extender => exact hleads
    | source | sink => exact .stays _

theorem Showing.stepSink (h : w.Showing) :
    (w.stepSink job).Showing ∧ ∀ stage, (w.phase stage).Leads stage ((w.stepSink job).phase stage) := by
  rcases w.stepSink_cases job with ⟨s, hpos, heq⟩ | ⟨-, heq⟩
  · obtain ⟨hshows, hleads⟩ := h.sink.next hpos .sink (fun hne => absurd rfl hne) fun _ _ _ _ => trivial
    rw [heq]
    refine ⟨⟨h.source, h.extender, hshows, h.sinkSteady⟩, fun stage => ?_⟩
    cases stage with
    | sink => exact hleads
    | source | extender => exact .stays _
  · obtain ⟨hshows, hleads⟩ := h.sink.advance job .sink Delivery.first
    rw [heq]
    refine ⟨⟨h.source.mono Worker.signal_advance, h.extender.mono Worker.signal_advance, hshows,
      Worker.steady_advance h.sinkSteady _ _ _ _⟩, fun stage => ?_⟩
    cases stage with
    | sink => exact hleads
    | source | extender => exact .stays _

theorem Showing.apply (h : w.Showing) (hs : w.Sound job) {move : Move} (hmove : move.Inner) :
    (w.apply job move).Showing ∧ ∀ stage, (w.phase stage).Leads stage ((w.apply job move).phase stage) := by
  cases move with
  | step actor =>
    cases actor with
    | source => exact h.stepSource hs
    | extender => exact h.stepExtender hs
    | sink => exact h.stepSink
  | raiseSignal =>
    refine ⟨⟨h.source.mono fun _ => rfl, h.extender.mono fun _ => rfl, h.sink.mono fun _ => rfl, h.sinkSteady⟩,
      fun stage => ?_⟩
    cases stage <;> exact .stays _
  | finish | takeInbound | takeOutbound | offerInbound | offerOutbound => exact hmove.elim

theorem Reachable.showing (hreach : Reachable job begun w) (hburst : 0 < job.burst) (hbegun : begun.Sound job)
    (hshowing : begun.Showing) : w.Showing := by
  induction hreach with
  | begun => exact hshowing
  | step stage hreach ih =>
    have hinner : Move.Inner (.step stage) := trivial
    exact (ih.apply (hreach.sound hburst hbegun) hinner).1
  | raise hreach ih =>
    have hinner : Move.Inner .raiseSignal := trivial
    exact (ih.apply (hreach.sound hburst hbegun) hinner).1

/-! ## The states in turn -/

/-- The states that a stage shows in turn while moves are made, each named once as long as it lasts. -/
def statesShown (job : Job) (stage : StageKind) (w : World) : List Move → List StageState
  | [] => [w.states.get stage]
  | move :: moves =>
    let later := (w.apply job move).statesShown job stage moves
    if (w.apply job move).states.get stage = w.states.get stage then later else w.states.get stage :: later

/-- What a stage shows from a phase on is part of what is left of its life. -/
theorem Showing.statesShown (h : w.Showing) (hs : w.Sound job) (hburst : 0 < job.burst) (stage : StageKind)
    {moves : List Move} (hmoves : ∀ move ∈ moves, move.Inner) :
    ∃ rest ∈ (w.phase stage).rests stage, w.statesShown job stage moves <+: rest := by
  induction moves generalizing w with
  | nil =>
    simp only [World.statesShown, ← h.state_phase stage]
    exact (w.phase stage).begins_rest stage
  | cons move moves ih =>
    have hinner : move.Inner := hmoves move List.mem_cons_self
    have hs' : (w.apply job move).Sound job := (Reachable.begun.apply hinner).sound hburst hs
    obtain ⟨h', hleads⟩ := h.apply hs hinner
    obtain ⟨later, hlater, hfirst⟩ := ih h' hs' fun m hm => hmoves m (List.mem_cons_of_mem _ hm)
    obtain ⟨rest, hrest, hwhole⟩ := (hleads stage).rest hlater
    refine ⟨rest, hrest, ?_⟩
    rw [h.state_phase, h'.state_phase] at hwhole
    refine List.IsPrefix.trans ?_ hwhole
    simp only [World.statesShown]
    split
    · exact hfirst
    · exact (List.prefix_cons_inj _).2 hfirst

/-! ## Stages that drain -/

/-- The next step of a stage takes something in: the source calls the feed, the others pop from the ring in
front of them. -/
def TakesIn (w : World) : StageKind → Prop
  | .source => ∃ s held, w.source.position = .loop s ∧ s.point = .pull held
  | .extender => ∃ s, w.extender.position = .loop s ∧ s.point = .pop
  | .sink => ∃ s want, w.sink.position = .loop s ∧ s.point = .pop want

/-- How many items a stage has in hand. -/
def inHand (w : World) : StageKind → Nat
  | .source => (w.source.held Intake.held).length
  | .extender => (w.extender.held Extension.held).length
  | .sink => (w.sink.held Delivery.held).length

/-- Only its own steps change the state that a stage shows. -/
theorem states_apply_of_ne (job : Job) (w : World) {move : Move} (hne : move ≠ .step stage) :
    (w.apply job move).states.get stage = w.states.get stage := by
  cases move with
  | step actor =>
    cases actor with
    | source =>
      show (w.stepSource job).states.get stage = _
      rcases w.stepSource_cases job with ⟨s, -, heq⟩ | ⟨-, heq⟩ <;> rw [heq] <;>
        cases stage <;> first | rfl | exact absurd rfl hne
    | extender =>
      show (w.stepExtender job).states.get stage = _
      rcases w.stepExtender_cases job with ⟨s, -, heq⟩ | ⟨-, heq⟩ <;> rw [heq] <;>
        cases stage <;> first | rfl | exact absurd rfl hne
    | sink =>
      show (w.stepSink job).states.get stage = _
      rcases w.stepSink_cases job with ⟨s, -, heq⟩ | ⟨-, heq⟩ <;> rw [heq] <;>
        cases stage <;> first | rfl | exact absurd rfl hne
  | finish other => cases other <;> cases stage <;> rfl
  | raiseSignal | takeInbound | takeOutbound | offerInbound | offerOutbound => cases stage <;> rfl

/-- A stage that begins to drain has been told to stop with items in hand. -/
theorem Showing.begins_draining (h : w.Showing) (hs : w.Sound job) {move : Move}
    (hbefore : w.states.get stage ≠ .draining) (hafter : (w.apply job move).states.get stage = .draining) :
    w.signal = true ∧ 0 < w.inHand stage := by
  obtain rfl : move = .step stage := by
    by_contra hne
    exact hbefore ((states_apply_of_ne job w hne).symm.trans hafter)
  cases stage with
  | source =>
    change (w.stepSource job).source.state = .draining at hafter
    rcases w.stepSource_cases job with ⟨s, hpos, heq⟩ | ⟨-, heq⟩ <;> rw [heq] at hafter
    · have hsound : s.Sound job w.sourceOutlet.signal w.sourceOutlet.neighbourDone w.calls :=
        hs.source.of_loop hpos
      obtain ⟨-, hheld, hsignal, -⟩ := hsound.step_state fun hsame => hbefore (hsame.symm.trans hafter)
      refine ⟨hsignal, List.length_pos_iff.2 ?_⟩
      rwa [Worker.held, hpos]
    · exact absurd hafter (Worker.steady_advance hbefore _ _ _ _)
  | extender =>
    change (w.stepExtender job).extender.state = .draining at hafter
    rcases w.stepExtender_cases job with ⟨s, hpos, heq⟩ | ⟨-, heq⟩ <;> rw [heq] at hafter
    · have hsound : s.Sound job w.extenderOutlet.signal w.source.done w.extenderOutlet.neighbourDone :=
        hs.extender.of_loop hpos
      obtain ⟨-, hheld, hsignal, -⟩ := hsound.step_state fun hsame => hbefore (hsame.symm.trans hafter)
      refine ⟨hsignal, List.length_pos_iff.2 ?_⟩
      rwa [Worker.held, hpos]
    · exact absurd hafter (Worker.steady_advance hbefore _ _ _ _)
  | sink => exact absurd hafter h.stepSink.1.sinkSteady

theorem Showing.phase_of_draining (h : w.Showing) (hdraining : w.states.get stage = .draining) :
    w.phase stage = .draining := by
  have hstate := (h.state_phase stage).trans hdraining
  cases hphase : w.phase stage <;> rw [hphase] at hstate <;> first | rfl | cases hstate

/-- A stage that drains or has stopped takes in nothing. -/
theorem Showing.not_takesIn (h : w.Showing) (hlate : w.phase stage = .draining ∨ w.phase stage = .behind) :
    ¬w.TakesIn stage := by
  cases stage with
  | source =>
    rintro ⟨s, held, hpos, hpoint⟩
    obtain ⟨-, hpast⟩ := h.source.past_of_phase hpos hlate
    simp [Intake.Past, hpoint] at hpast
  | extender =>
    rintro ⟨s, hpos, hpoint⟩
    obtain ⟨-, hpast⟩ := h.extender.past_of_phase hpos hlate
    simp [Extension.Past, hpoint] at hpast
  | sink =>
    rintro ⟨s, want, hpos, -⟩
    exact h.sinkSteady (h.sink.past_of_phase hpos hlate).1

theorem Reachable.late {v : World} (hreach : Reachable job w v) (hburst : 0 < job.burst) (hs : w.Sound job)
    (h : w.Showing) (hlate : w.phase stage = .draining ∨ w.phase stage = .behind) :
    v.phase stage = .draining ∨ v.phase stage = .behind := by
  induction hreach with
  | begun => exact hlate
  | step actor hreach ih =>
    have hinner : Move.Inner (.step actor) := trivial
    exact (((hreach.showing hburst hs h).apply (hreach.sound hburst hs) hinner).2 stage).late ih
  | raise hreach ih =>
    have hinner : Move.Inner .raiseSignal := trivial
    exact (((hreach.showing hburst hs h).apply (hreach.sound hburst hs) hinner).2 stage).late ih

/-! ## Stages that have ended -/

theorem hasEnded_apply (h : w.hasEnded stage = true) (move : Move) : (w.apply job move).hasEnded stage = true := by
  by_cases hstep : move = .step stage
  · subst hstep
    show (w.step job stage).hasEnded stage = true
    rw [step_of_hasEnded h]
    exact h
  · have hnone : (w.apply job move).stepsLeft job stage = 0 :=
      (stepsLeft_apply_of_ne hstep).trans (stepsLeft_eq_zero_iff.2 h)
    exact stepsLeft_eq_zero_iff.1 hnone

theorem Reachable.hasEnded {v : World} (hreach : Reachable job w v) (h : w.hasEnded stage = true) :
    v.hasEnded stage = true := by
  induction hreach with
  | begun => exact h
  | step actor _ ih => exact hasEnded_apply ih (.step actor)
  | raise _ ih => exact hasEnded_apply ih .raiseSignal

end World

/-! ## Deliveries -/

section Position

variable {β : Type} {position : Position β}

/-- A stage that is behind its loop has returned from it, or has failed. -/
theorem Position.returned_or_failed (hlast : position.last? ≠ none) (hrest : position.isActive ≠ true) :
    (∃ exit, position.exit? = some exit) ∨ position.hasFailed = true := by
  cases position with
  | bind | refused | enter => exact absurd rfl hlast
  | loop | broken | leave => exact absurd rfl hrest
  | finish ending | ended ending =>
    cases ending with
    | returned last exit => exact .inl ⟨exit, rfl⟩
    | broken | unpinned => exact .inr rfl

end Position

/-- A sink that delivers has an item in hand. -/
theorem Delivery.held_ne_nil_of_delivers {job : Job} {outbound : Ring UInt64} {signal upDone : Bool}
    {delivered : Array UInt64} {s : Delivery}
    (h : delivered.size < (s.step job outbound signal upDone delivered).2.1.size) : s.held ≠ [] := by
  obtain ⟨point, count⟩ := s
  cases point with
  | deliver left size =>
    rintro rfl
    exact absurd h (lt_irrefl _)
  | readSignal | pop | readUpstream | recheck => exact absurd h (lt_irrefl _)

namespace World

variable {job : Job} {w begun : World} {inbound outbound : Capacity}

/-- As long as the signal is not raised and the feed goes on, a source that has stopped found its neighbour
stopped. -/
theorem Sound.source_exit (hs : w.Sound job) (hquiet : w.signal ≠ true)
    (hgoes : ∀ call < w.calls, job.workload.feed call ≠ .ended) {exit : ExitReason}
    (hexit : w.source.position.exit? = some exit) : exit = .downstreamStopped := by
  obtain ⟨last, -, -, -, hleft⟩ := hs.source.left_of_exit? hexit
  cases exit with
  | inputExhausted =>
    obtain ⟨⟨n, hcalls, -, hended⟩, -⟩ := hleft
    exact absurd hended (hgoes n (by omega))
  | shutdown => exact absurd hleft.2 hquiet
  | downstreamStopped => rfl
  | expectedReached => exact hleft.elim

/-- What the sink has or had in hand the extender has taken in. -/
theorem Counted.extended_pos (hcount : w.Counted job inbound outbound) (hs : w.Sound job)
    (hdelivers : 0 < w.delivered.size + (w.sink.held Delivery.held).length) :
    w.source.position.last? ≠ none ∧ w.extender.position.last? ≠ none := by
  have hpulled := hs.length_pulled
  have hextended := hcount.pulled
  simp only [toDeliver, List.length_append] at hpulled
  constructor
  · intro hnone
    have hnothing : w.pulled job = [] := by
      unfold World.pulled
      rw [hs.notCalled hnone]
      rfl
    rw [hnothing, List.length_nil] at hpulled
    omega
  · intro hnone
    have hzero : w.extended = 0 := by
      unfold extended
      rw [hnone]
    omega

/-- As long as the signal is not raised and the feed goes on, a sink that is at its deliveries has both other
stages at work: none of the three can be the first to stop. -/
theorem Sound.active (hs : w.Sound job) (hc : w.Causes) (hquiet : w.signal ≠ true)
    (hgoes : ∀ call < w.calls, job.workload.feed call ≠ .ended) (hsource : w.source.position.last? ≠ none)
    (hextender : w.extender.position.last? ≠ none) (hsink : w.sink.position.isActive = true) :
    w.source.position.isActive = true ∧ w.extender.position.isActive = true := by
  have hsourceExit : w.source.position.isActive ≠ true → w.source.position.exit? = some .downstreamStopped := by
    intro hrest
    rcases Position.returned_or_failed hsource hrest with ⟨exit, hexit⟩ | hfailed
    · rw [hexit, hs.source_exit hquiet hgoes hexit]
    · exact absurd (hc.source.alarm hfailed) hquiet
  have hactive : w.extender.position.isActive = true := by
    by_contra hrest
    rcases Position.returned_or_failed hextender hrest with ⟨exit, hexit⟩ | hfailed
    · obtain ⟨last, -, -, hleft⟩ := hs.extender.left_of_exit? hexit
      cases exit with
      | inputExhausted =>
        -- The source stopped first, and not because of the extender.
        have hdone := (hc.extenderExhausted hexit).1
        rw [hc.source.done_eq] at hdone
        have hstopped := hsourceExit (by rw [Worker.not_active_of_hasEnded hdone]; exact Bool.false_ne_true)
        exact (hc.sourceStopped hstopped).2 hexit
      | shutdown => exact hquiet hleft
      | downstreamStopped =>
        have hdone := (hc.extenderStopped hexit).1
        rw [hc.sink.done_eq] at hdone
        cases hsink.symm.trans (Worker.not_active_of_hasEnded hdone)
      | expectedReached => exact hleft
    · exact hquiet (hc.extender.alarm hfailed)
  refine ⟨?_, hactive⟩
  by_contra hrest
  have hdone := (hc.sourceStopped (hsourceExit hrest)).1
  rw [hc.extender.done_eq] at hdone
  cases hactive.symm.trans (Worker.not_active_of_hasEnded hdone)

/-- The sink delivers now: its next step does, or its last one did and it has made none since. -/
def Delivering (job : Job) (w begun : World) : Prop :=
  w.delivered.size < (w.step job .sink).delivered.size ∨ w.DeliveredLast job begun

/-- A sink that delivers is in its loop with an item in hand, and is active still when it has delivered. -/
theorem active_of_delivers (h : w.delivered.size < (w.step job .sink).delivered.size) :
    w.sink.position.isActive = true ∧ 0 < (w.sink.held Delivery.held).length ∧
      (w.step job .sink).sink.position.isActive = true := by
  change w.delivered.size < (w.stepSink job).delivered.size at h
  show _ ∧ _ ∧ (w.stepSink job).sink.position.isActive = true
  rcases w.stepSink_cases job with ⟨s, hpos, heq⟩ | ⟨-, heq⟩ <;> rw [heq] at h ⊢
  · refine ⟨by rw [hpos]; rfl, ?_, ?_⟩
    · rw [Worker.held, hpos]
      exact List.length_pos_iff.2 (Delivery.held_ne_nil_of_delivers h)
    · show (Next.position _).isActive = true
      cases (s.step job w.outbound w.signal w.extender.done w.delivered).2.2 <;> rfl
  · exact absurd h (lt_irrefl _)

theorem sink_applyAll (job : Job) {moves : List Move} (hidle : .step .sink ∉ moves) :
    (w.applyAll job moves).sink.position = w.sink.position ∧ (w.applyAll job moves).delivered = w.delivered := by
  induction moves generalizing w with
  | nil => exact ⟨rfl, rfl⟩
  | cons move moves ih =>
    rw [List.mem_cons, not_or] at hidle
    obtain ⟨hpos, hdelivered⟩ := apply_of_ne_sink job w (Ne.symm hidle.1)
    obtain ⟨hpos', hdelivered'⟩ := ih (w := w.apply job move) hidle.2
    exact ⟨hpos'.trans hpos, hdelivered'.trans hdelivered⟩

theorem Delivering.active (h : w.Delivering job begun) :
    w.sink.position.isActive = true ∧ 0 < w.delivered.size + (w.sink.held Delivery.held).length := by
  rcases h with hnow | ⟨before, since, -, hidle, hdelivers, rfl⟩
  · obtain ⟨hactive, hheld, -⟩ := active_of_delivers hnow
    exact ⟨hactive, Nat.add_pos_right _ hheld⟩
  · obtain ⟨-, -, hactive⟩ := active_of_delivers hdelivers
    obtain ⟨hpos, hdelivered⟩ := sink_applyAll (w := before.step job .sink) job hidle
    rw [hpos, hdelivered]
    exact ⟨hactive, Nat.add_pos_left (Nat.zero_lt_of_lt hdelivers) _⟩

end World

namespace Pipeline

variable {p : Pipeline} {m : Machine} {load : Workload} {begun w : World}

theorem launch_showing (hlaunch : p.launch m = .ok begun) (hstates : p.states = ⟨.stopped, .stopped, .stopped⟩) :
    begun.Showing := by
  rw [launch_eq hlaunch, hstates]
  exact World.start_showing _ _ _

/-- The live states of the stages in any run that a pipeline comes to make, however its stages interleave. In the
course of the run a stage is stopped, runs, may drain, and is stopped, in this order, and the sink never drains. A
stage that begins to drain does so under a raised signal and with items in hand, and from then on takes in
nothing. A stage whose completion flag is set shows that it has stopped, and does nothing more. And whenever
the sink delivers, while the signal is not raised and the feed has not ended, all three stages are running. -/
theorem stages_live {s : Settings} {built : Pipeline} (hbuilt : Pipeline.ofSettings s = .ok built)
    (hp : built.Becomes p) (hlaunch : p.launch m = .ok begun)
    (hreach : World.Reachable (p.job m load) begun w) :
    let job := p.job m load
    (∀ stage moves, (∀ move ∈ moves, World.Move.Inner move) →
        ∃ life ∈ stage.lives, begun.statesShown job stage moves <+: life) ∧
      w.states.sink ≠ .draining ∧
      (∀ stage move, w.states.get stage ≠ .draining → (w.apply job move).states.get stage = .draining →
        w.signal = true ∧ 0 < w.inHand stage) ∧
      (∀ stage, w.states.get stage = .draining → ∀ v, World.Reachable job w v → ¬v.TakesIn stage) ∧
      (∀ stage, w.done.get stage = true → w.states.get stage = .stopped ∧
        ∀ v, World.Reachable job w v → v.step job stage = v) ∧
      (w.signal = false → (∀ call < w.calls, load.feed call ≠ .ended) → w.Delivering job begun →
        w.states = ⟨.running, .running, .running⟩) := by
  intro job
  have hburst : 0 < job.burst := p.config.burst_pos
  have hbegun : begun.Sound job := launch_sound hlaunch
  have hlaunched : begun.Showing := launch_showing hlaunch (hp.states (ofSettings_states hbuilt))
  have hsound : w.Sound job := reachable_sound hlaunch hreach
  have hcauses : w.Causes := reachable_causes hlaunch hreach
  have hshowing : w.Showing := hreach.showing hburst hbegun hlaunched
  refine ⟨?_, hshowing.sinkSteady, ?_, ?_, ?_, ?_⟩
  · intro stage moves hmoves
    have hahead : begun.phase stage = .ahead := by
      rw [launch_eq hlaunch]
      cases stage <;> rfl
    have hlife := hlaunched.statesShown hbegun hburst stage hmoves
    rw [hahead] at hlife
    exact hlife
  · intro stage move hbefore hafter
    exact hshowing.begins_draining hsound hbefore hafter
  · intro stage hdraining v hv
    have hlate := hv.late hburst hsound hshowing (.inl (hshowing.phase_of_draining hdraining))
    exact (hv.showing hburst hsound hshowing).not_takesIn hlate
  · intro stage hdone
    have hended : w.hasEnded stage = true := by
      rw [← hcauses.done_get]
      exact hdone
    refine ⟨?_, fun v hv => World.step_of_hasEnded (hv.hasEnded hended)⟩
    have hshown := reachable_shown hlaunch hreach (hp.states (ofSettings_states hbuilt))
    cases stage with
    | source => exact hshown.source.of_hasEnded hended
    | extender => exact hshown.extender.of_hasEnded hended
    | sink => exact hshown.sink.of_hasEnded hended
  · intro hquiet hgoes hdelivering
    have hquiet : w.signal ≠ true := by simp [hquiet]
    obtain ⟨hsink, hpos⟩ := hdelivering.active
    obtain ⟨hsource, hextender⟩ := (reachable_counted hlaunch hreach).extended_pos hsound hpos
    obtain ⟨hsource, hextender⟩ := hsound.active hcauses hquiet hgoes hsource hextender hsink
    rw [World.states, hshowing.source.running_of_active hsource hquiet,
      hshowing.extender.running_of_active hextender hquiet, hshowing.sink.running_of_active hsink hquiet]

/-- The first delivery finds all three stages running. Later the outbound ring is full and the extender holds a value
when the signal is raised: it drains, takes in nothing more, and ends. -/
theorem full_extender_drains :
    let job := (narrow none).job .willing endless
    let begun := World.start false ⟨.stopped, .stopped, .stopped⟩ (.empty ⟨1, by decide⟩)
      (.empty ⟨0, by decide⟩)
    let toDelivery := (List.replicate 8 StageKind.source ++ List.replicate 6 StageKind.extender ++
      List.replicate 4 StageKind.sink).map World.Move.step
    let delivering := begun.applyAll job toDelivery
    let toDraining := World.Move.step .sink :: (List.replicate 12 StageKind.source ++
      List.replicate 12 StageKind.extender).map .step ++ .raiseSignal :: List.replicate 3 (.step .extender)
    let told := delivering.applyAll job toDraining
    let draining := told.apply job (.step .extender)
    let toEnd := List.replicate 2 (World.Move.step .extender)
    let ended := draining.applyAll job toEnd
    delivering.states = ⟨.running, .running, .running⟩ ∧ told.signal = true ∧ 0 < told.inHand .extender ∧
      (∀ v, World.Reachable job draining v → ¬v.TakesIn .extender) ∧ ended.states.extender = .stopped ∧
      begun.statesShown job .extender (toDelivery ++ toDraining ++ .step .extender :: toEnd) =
        [.stopped, .running, .draining, .stopped] := by
  intro job begun toDelivery delivering toDraining told draining toEnd ended
  have hbuilt : Pipeline.ofSettings
      { inboundCapacity := 2, outboundCapacity := 1, burst := 1, fieldWidth := 8, seed := 240, drainRetries := 0
        prefault := false } = .ok (narrow none) := rfl
  have hdelivering : World.Reachable job begun delivering := .steps .begun _
  have htold : World.Reachable job begun told :=
    hdelivering.applyAll (by simp [toDraining, World.Move.Inner])
  have hdraining : World.Reachable job begun draining := .step .extender htold
  have hended : World.Reachable job begun ended := hdraining.applyAll (by simp [toEnd, World.Move.Inner])
  obtain ⟨-, -, -, -, -, hdelivery⟩ := stages_live (m := .willing) hbuilt .same rfl hdelivering
  obtain ⟨-, -, hdrains, -⟩ := stages_live (m := .willing) hbuilt .same rfl htold
  obtain ⟨-, -, -, hpast, -⟩ := stages_live (m := .willing) hbuilt .same rfl hdraining
  obtain ⟨-, -, -, -, hstopped, -⟩ := stages_live (m := .willing) hbuilt .same rfl hended
  have hstate : draining.states.get .extender = .draining := by decide +kernel
  obtain ⟨hsignal, hheld⟩ := hdrains .extender (.step .extender) (by decide +kernel) hstate
  have hrunning : delivering.states = ⟨.running, .running, .running⟩ := by
    refine hdelivery (by decide +kernel) ?_ (.inl (by decide +kernel))
    rintro call - ⟨⟩
  have hdone : ended.done.get .extender = true := by decide +kernel
  exact ⟨hrunning, hsignal, hheld, hpast .extender hstate, (hstopped .extender hdone).1, by decide +kernel⟩

end Pipeline

end TimestampRelay
