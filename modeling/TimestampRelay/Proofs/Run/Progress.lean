/-
Runs do not deadlock. As long as a stage has not ended, some stage that has not is not kept waiting. Left
to itself it moves an item, or ends, after a number of steps that the attempts of a stage that drains set
a limit to.
-/
import TimestampRelay.Proofs.Run.Books
import TimestampRelay.Proofs.Run.Patience

namespace TimestampRelay

/-! ## Stages around their loops -/

section Position

variable {β : Type}

/-- Steps that a stage can make in vain at most, if its loop has the given patience, and no more than
`entry` when it is entered. -/
def Position.patience (loop : β → Nat) (entry : Nat) : Position β → Nat
  | .bind => entry + 6
  | .enter => entry + 5
  | .loop state => loop state + 4
  | .broken _ => 3
  | .refused _ _ | .leave _ => 2
  | .finish _ => 1
  | .ended _ => 0

theorem Position.patience_le {loop : β → Nat} {entry : Nat} {position : Position β}
    (h : ∀ s, position = .loop s → loop s ≤ entry) : position.patience loop entry ≤ entry + 6 := by
  cases position with
  | loop s =>
    have := h s rfl
    show loop s + 4 ≤ entry + 6
    omega
  | bind | refused | enter | broken | leave | finish | ended =>
    simp only [patience]
    omega

/-- A step of the loop that leaves it less patience leaves the stage less. -/
theorem Next.Below.position {loop : β → Nat} {entry : Nat} {s : β} {next : Next β}
    (h : next.Below loop (loop s)) :
    next.position.patience loop entry < (Position.loop s).patience loop entry := by
  show _ < loop s + 4
  cases next with
  | loop state => exact Nat.add_lt_add_right h 4
  | exit last reason =>
    show 2 < loop s + 4
    omega
  | broken last =>
    show 3 < loop s + 4
    omega

/-- Every step outside the loop brings a stage closer to it or to its end. -/
theorem Worker.patience_advance (job : Job) (kind : StageKind) {first : β} {w : Worker β} (signal : Bool)
    {before after : β → Nat} {entry : Nat} (hended : w.hasEnded ≠ true) (hout : ∀ s, w.position ≠ .loop s)
    (hfirst : after first ≤ entry) :
    (w.advance job kind first signal).1.position.patience after entry < w.position.patience before entry := by
  obtain ⟨position, state, done⟩ := w
  cases position with
  | bind =>
    show (afterBind job kind : Position β).patience after entry < entry + 6
    rcases afterBind_eq (β := β) job kind with heq | ⟨core, cause, heq⟩ <;> rw [heq]
    · exact Nat.lt_succ_self _
    · show 2 < entry + 6
      omega
  | enter =>
    show after first + 4 < entry + 5
    omega
  | refused | leave => exact Nat.lt_succ_self 1
  | broken => exact Nat.lt_succ_self 2
  | finish => exact Nat.lt_succ_self 0
  | loop s => exact absurd rfl (hout s)
  | ended => exact absurd rfl hended

end Position

namespace World

variable {job : Job} {w : World}

/-! ## Stages where they can stand -/

/-- A run in which no stage stands at a burst that is over, and the sink pops and delivers only where there is
something to. -/
structure Poised (job : Job) (w : World) : Prop where
  source : w.source.position.Meets (Intake.Poised job.drainRetries) fun _ _ => True
  extender : w.extender.position.Meets (Extension.Poised job.drainRetries) fun _ _ => True
  sink : w.sink.position.Meets Delivery.Poised fun _ _ => True

theorem start_poised (job : Job) (signal : Bool) (states : PerStage StageState) (inbound : Ring Descriptor)
    (outbound : Ring UInt64) : (World.start signal states inbound outbound).Poised job :=
  ⟨trivial, trivial, trivial⟩

theorem Poised.step (hburst : 0 < job.burst) (h : w.Poised job) (stage : StageKind) :
    (w.step job stage).Poised job := by
  cases stage with
  | source =>
    show (w.stepSource job).Poised job
    rcases w.stepSource_cases job with ⟨s, hpos, heq⟩ | ⟨-, heq⟩ <;> rw [heq]
    · exact ⟨((h.source.of_loop hpos).step _ _).position, h.extender, h.sink⟩
    · exact ⟨Worker.meets_advance h.source fun _ => trivial, h.extender, h.sink⟩
  | extender =>
    show (w.stepExtender job).Poised job
    rcases w.stepExtender_cases job with ⟨s, hpos, heq⟩ | ⟨-, heq⟩ <;> rw [heq]
    · exact ⟨h.source, ((h.extender.of_loop hpos).step _ _ _).position, h.sink⟩
    · exact ⟨h.source, Worker.meets_advance h.extender fun _ => trivial, h.sink⟩
  | sink =>
    show (w.stepSink job).Poised job
    rcases w.stepSink_cases job with ⟨s, hpos, heq⟩ | ⟨-, heq⟩ <;> rw [heq]
    · exact ⟨h.source, h.extender, (Delivery.step_poised hburst _ _ _ _ s).position⟩
    · exact ⟨h.source, h.extender, Worker.meets_advance h.sink fun _ => trivial⟩

theorem Reachable.poised {begun : World} (hreach : Reachable job begun w) (hburst : 0 < job.burst)
    (hbegun : begun.Poised job) : w.Poised job := by
  induction hreach with
  | begun => exact hbegun
  | step stage _ ih => exact ih.step hburst stage
  | raise _ ih => exact ⟨ih.source, ih.extender, ih.sink⟩

/-! ## Stages that are not kept waiting -/

/-- Nothing keeps a stage waiting: where it pushes there is room, and where it pops there are items, unless
it finds a reason to stop. -/
def Unblocked (w : World) : StageKind → Prop
  | .source => w.sourceOutlet.Open
  | .extender =>
    w.extenderOutlet.Open ∧
      (w.signal = true ∨ w.sink.done = true ∨ w.source.done = true ∨ w.inbound.toList ≠ [])
  | .sink => w.signal = true ∨ w.extender.done = true ∨ w.outbound.toList ≠ []

/-- The stages cannot all be kept waiting. A sink that waits has an empty ring in front of it, which the
extender can push into; an extender that waits all the same has an empty ring in front of it, too, which the
source can push into. -/
theorem exists_unblocked (hopen : ∃ stage, w.done.get stage = false) :
    ∃ stage, w.done.get stage = false ∧ w.Unblocked stage := by
  cases hsink : w.sink.done with
  | false =>
    by_cases hwork : w.Unblocked .sink
    · exact ⟨.sink, hsink, hwork⟩
    · simp only [Unblocked, not_or, Bool.not_eq_true, not_not] at hwork
      obtain ⟨-, hextender, houtbound⟩ := hwork
      have hroom : w.extenderOutlet.Open := .inr (.inr (Ring.room_pos houtbound))
      cases hsource : w.source.done with
      | true => exact ⟨.extender, hextender, hroom, .inr (.inr (.inl hsource))⟩
      | false =>
        by_cases hinbound : w.inbound.toList = []
        · exact ⟨.source, hsource, .inr (.inr (Ring.room_pos hinbound))⟩
        · exact ⟨.extender, hextender, hroom, .inr (.inr (.inr hinbound))⟩
  | true =>
    cases hextender : w.extender.done with
    | false => exact ⟨.extender, hextender, .inr (.inl hsink), .inr (.inl hsink)⟩
    | true =>
      obtain ⟨stage, hstage⟩ := hopen
      cases stage with
      | source => exact ⟨.source, hstage, .inr (.inl hextender)⟩
      | extender => exact absurd (hstage.symm.trans hextender) Bool.false_ne_true
      | sink => exact absurd (hstage.symm.trans hsink) Bool.false_ne_true

/-! ## One step of a stage -/

/-- The next step of a stage moves an item: the source pulls an event or pushes one, the extender pops a
descriptor or pushes a value, the sink pops a value or delivers one. -/
def Moves (job : Job) (w : World) : StageKind → Prop
  | .source =>
    (w.pulled job).length < ((w.step job .source).pulled job).length ∨
      w.inbound.toList.length < (w.step job .source).inbound.toList.length
  | .extender =>
    (w.step job .extender).inbound.toList.length < w.inbound.toList.length ∨
      w.outbound.toList.length < (w.step job .extender).outbound.toList.length
  | .sink =>
    (w.step job .sink).outbound.toList.length < w.outbound.toList.length ∨
      w.delivered.size < (w.step job .sink).delivered.size

/-- Steps that a stage can make in vain at most, as long as nothing keeps it waiting. -/
def patience (job : Job) (w : World) : StageKind → Nat
  | .source =>
    w.source.position.patience (Intake.patience job.drainRetries w.signal w.extender.done)
      (job.drainRetries + 7)
  | .extender =>
    w.extender.position.patience
      (Extension.patience job.drainRetries w.signal w.sink.done w.inbound.toList.isEmpty)
      (job.drainRetries + 7)
  | .sink =>
    w.sink.position.patience (Delivery.patience w.signal w.outbound.toList.isEmpty) (job.drainRetries + 7)

theorem Poised.patience_le (h : w.Poised job) (stage : StageKind) :
    w.patience job stage ≤ job.drainRetries + 13 := by
  cases stage with
  | source => exact Position.patience_le fun s hpos => (h.source.of_loop hpos).patience_le _ _
  | extender => exact Position.patience_le fun s hpos => (h.extender.of_loop hpos).patience_le _ _ _
  | sink =>
    exact Position.patience_le fun s _ => le_trans (s.patience_le _ _) (by omega)

/-- The next step of a stage moves an item, or nothing keeps the stage waiting behind it either and it has
less patience left. -/
def GetsOn (job : Job) (w : World) (stage : StageKind) : Prop :=
  w.Moves job stage ∨
    (w.step job stage).Unblocked stage ∧ (w.step job stage).patience job stage < w.patience job stage

theorem source_gets_on (hburst : 0 < job.burst) (hs : w.Sound job) (hp : w.Poised job)
    (hended : w.source.hasEnded ≠ true) (hfree : w.Unblocked .source) : w.GetsOn job .source := by
  show w.Moves job .source ∨ (w.stepSource job).Unblocked .source ∧ (w.stepSource job).patience job .source < _
  rcases w.stepSource_cases job with ⟨s, hpos, heq⟩ | ⟨hout, heq⟩
  · have hsound : s.Sound job w.signal w.extender.done w.calls := hs.source.of_loop hpos
    have hstep := Intake.Sound.step (o := w.sourceOutlet) hsound hburst hs.inbound
    rcases hsound.gets_on (o := w.sourceOutlet) (hp.source.of_loop hpos) hs.inbound hfree with
      hpulled | hpushed | ⟨hlist, hbelow⟩
    · refine .inl (.inl ?_)
      show _ < ((w.stepSource job).pulled job).length
      rw [heq]
      exact hpulled
    · refine .inl (.inr ?_)
      show _ < (w.stepSource job).inbound.toList.length
      rw [heq]
      exact hpushed
    · rw [heq]
      refine .inr ⟨hfree.mono id id hstep.capacity hlist, ?_⟩
      simp only [patience, hpos]
      exact hbelow.position
  · rw [heq]
    refine .inr ⟨hfree.mono Worker.signal_advance id rfl rfl, ?_⟩
    exact Worker.patience_advance _ _ _ hended hout le_rfl

theorem extender_gets_on (hburst : 0 < job.burst) (hs : w.Sound job) (hp : w.Poised job)
    (hended : w.extender.hasEnded ≠ true) (hfree : w.Unblocked .extender) : w.GetsOn job .extender := by
  show w.Moves job .extender ∨
    (w.stepExtender job).Unblocked .extender ∧ (w.stepExtender job).patience job .extender < _
  obtain ⟨hout, hwork⟩ := hfree
  rcases w.stepExtender_cases job with ⟨s, hpos, heq⟩ | ⟨houtside, heq⟩
  · have hsound : s.Sound job w.signal w.source.done w.sink.done := hs.extender.of_loop hpos
    have hstep := Extension.Sound.step (o := w.extenderOutlet) hsound hs.inbound hs.outbound
    rcases hsound.gets_on (o := w.extenderOutlet) (hp.extender.of_loop hpos) hs.inbound hs.outbound hout hwork
      hburst with hpopped | hpushed | ⟨hinbound, houtbound, hbelow⟩
    · refine .inl (.inl ?_)
      show (w.stepExtender job).inbound.toList.length < _
      rw [heq]
      exact hpopped
    · refine .inl (.inr ?_)
      show _ < (w.stepExtender job).outbound.toList.length
      rw [heq]
      exact hpushed
    · rw [heq]
      refine .inr ⟨⟨hout.mono id id hstep.outbound_capacity houtbound, ?_⟩, ?_⟩
      · rw [← hinbound] at hwork
        exact hwork
      · simp only [patience, hpos, hinbound]
        exact hbelow.position
  · rw [heq]
    refine .inr ⟨⟨hout.mono Worker.signal_advance id rfl rfl, hwork.imp Worker.signal_advance id⟩, ?_⟩
    have hfirst : (Extension.first job.start).Poised job.drainRetries := trivial
    exact Worker.patience_advance _ _ _ hended houtside (hfirst.patience_le _ _ _)

theorem sink_gets_on (hs : w.Sound job) (hp : w.Poised job)
    (hended : w.sink.hasEnded ≠ true) (hfree : w.Unblocked .sink) : w.GetsOn job .sink := by
  show w.Moves job .sink ∨ (w.stepSink job).Unblocked .sink ∧ (w.stepSink job).patience job .sink < _
  have hwork : w.signal = true ∨ w.extender.done = true ∨ w.outbound.toList ≠ [] := hfree
  rcases w.stepSink_cases job with ⟨s, hpos, heq⟩ | ⟨houtside, heq⟩
  · rcases (hp.sink.of_loop hpos).gets_on hs.outbound hwork with
      hpopped | hdelivered | ⟨hlist, hbelow⟩
    · refine .inl (.inl ?_)
      show (w.stepSink job).outbound.toList.length < _
      rw [heq]
      exact hpopped
    · refine .inl (.inr ?_)
      show _ < (w.stepSink job).delivered.size
      rw [heq]
      exact hdelivered
    · rw [heq]
      refine .inr ⟨?_, ?_⟩
      · rw [← hlist] at hwork
        exact hwork
      · simp only [patience, hpos, hlist]
        exact hbelow.position
  · rw [heq]
    refine .inr ⟨hwork.imp Worker.signal_advance id, ?_⟩
    have hfirst : ∀ signal empty, Delivery.first.patience signal empty ≤ job.drainRetries + 7 := fun _ _ =>
      (Delivery.patience_le _ _ _).trans (by omega)
    exact Worker.patience_advance _ _ _ hended houtside (hfirst _ _)

/-! ## Stages left to themselves -/

/-- The run after a stage has made so many steps, and nobody else any. -/
def alone (job : Job) (stage : StageKind) (n : Nat) (w : World) : World :=
  w.applyAll job (List.replicate n (.step stage))

/-- Left to itself, a stage ends or moves an item after at most so many steps. -/
def GoesOn (job : Job) (stage : StageKind) (limit : Nat) (w : World) : Prop :=
  ∃ n ≤ limit, (w.alone job stage n).done.get stage = true ∨ (w.alone job stage n).Moves job stage

/-- A stage that has not ended and is not kept waiting gets on. -/
theorem gets_on (hburst : 0 < job.burst) (hs : w.Sound job) (hc : w.Causes) (hp : w.Poised job)
    {stage : StageKind} (hopen : w.done.get stage ≠ true) (hfree : w.Unblocked stage) : w.GetsOn job stage := by
  cases stage with
  | source => exact source_gets_on hburst hs hp (hc.source.done_eq ▸ hopen) hfree
  | extender => exact extender_gets_on hburst hs hp (hc.extender.done_eq ▸ hopen) hfree
  | sink => exact sink_gets_on hs hp (hc.sink.done_eq ▸ hopen) hfree

/-- A stage that is not kept waiting goes on before its patience is at an end. -/
theorem Reachable.goes_on {begun : World} (hreach : Reachable job begun w) (hburst : 0 < job.burst)
    (hbegun : begun.Sound job) (hcauses : begun.Causes) (hposed : begun.Poised job) {stage : StageKind}
    (hfree : w.Unblocked stage) : w.GoesOn job stage (w.patience job stage) := by
  induction hn : w.patience job stage using Nat.strong_induction_on generalizing w with
  | _ limit ih =>
    by_cases hdone : w.done.get stage = true
    · exact ⟨0, Nat.zero_le _, .inl hdone⟩
    · rcases gets_on hburst (hreach.sound hburst hbegun) (hreach.causes hburst hbegun hcauses)
        (hreach.poised hburst hposed) hdone hfree with hmoves | ⟨hfree', hless⟩
      · exact ⟨0, Nat.zero_le _, .inr hmoves⟩
      · rw [hn] at hless
        obtain ⟨n, hle, hgoes⟩ := ih _ hless (hreach.step stage) hfree' rfl
        exact ⟨n + 1, Nat.succ_le_of_lt (hle.trans_lt hless), hgoes⟩

end World

namespace Pipeline

variable {p : Pipeline} {m : Machine} {load : Workload} {begun w : World}

/-- Runs do not deadlock, whatever has happened to them. As long as a stage has not set its completion flag,
there is one that has not and that, left to itself, sets it or moves an item after a number of its own
steps that depends on the configuration only. -/
theorem some_stage_goes_on (hlaunch : p.launch m = .ok begun)
    (hreach : World.Reachable (p.job m load) begun w) (hopen : ∃ stage, w.done.get stage = false) :
    ∃ stage, w.done.get stage = false ∧
      w.GoesOn (p.job m load) stage (p.config.drainRetries.toNat + 13) := by
  have hsound : begun.Sound (p.job m load) := launch_sound hlaunch
  have hbegun : World.Reachable (p.job m load) begun begun := .begun
  have hcauses : begun.Causes := reachable_causes hlaunch hbegun
  have hposed : begun.Poised (p.job m load) := by
    rw [launch_eq hlaunch]
    exact World.start_poised _ _ _ _ _
  obtain ⟨stage, hstage, hfree⟩ := World.exists_unblocked hopen
  obtain ⟨n, hn, hgoes⟩ := hreach.goes_on p.config.burst_pos hsound hcauses hposed hfree
  have hpatience := (hreach.poised p.config.burst_pos hposed).patience_le stage
  exact ⟨stage, hstage, n, hn.trans hpatience, hgoes⟩

/-- The sink has not begun, and the source and the extender step until both rings are full. They can only try
again, but the run goes on. -/
theorem full_rings_go_on :
    let job := (narrow none).job .willing endless
    let begun := World.start false ⟨.stopped, .stopped, .stopped⟩ (.empty ⟨1, by decide⟩)
      (.empty ⟨0, by decide⟩)
    let w := begun.applyAll job ((List.replicate 40 [StageKind.source, .extender]).flatten.map .step)
    w.inbound.room = 0 ∧ w.outbound.room = 0 ∧ w.signal = false ∧
      ∃ stage, w.done.get stage = false ∧ w.GoesOn job stage 13 := by
  intro job begun w
  have hreach : World.Reachable job begun w := .steps .begun _
  have hopen : w.done.get .sink = false := by decide +kernel
  exact ⟨by decide +kernel, by decide +kernel, by decide +kernel,
    some_stage_goes_on (p := narrow none) (m := .willing) rfl hreach ⟨.sink, hopen⟩⟩

end Pipeline

end TimestampRelay
