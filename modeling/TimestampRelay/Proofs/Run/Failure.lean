/-
How runs fail. A stage fails if its core refuses it and that is not let pass, if the feed breaks off at a call, or
if the receiver breaks off at a delivery. It raises the signal before it sets its completion flag, so the others
stop as well and the run returns the fault of the earliest stage that failed. No later run of the pipeline then
pulls or delivers anything.
-/
import TimestampRelay.Proofs.Run.Stopping

namespace TimestampRelay

/-! ## What befalls a stage -/

/-- The refusal that keeps a stage from running: that of its core, unless refusals are let pass. -/
def Job.barred (job : Job) (stage : StageKind) : Option (UInt64 × MachineFault) :=
  if job.strict then job.refused stage else none

/-- The feed broke off at one of the calls made so far. -/
def Workload.FeedBroke (load : Workload) (calls : Nat) : Prop :=
  ∃ call < calls, load.feed call = .broken

/-- The receiver broke off at one of the deliveries made so far. -/
def Workload.ReceiverBroke (load : Workload) (deliveries : Nat) : Prop :=
  ∃ n < deliveries, load.breaksAt (n + 1) = true

/-! ## Where a stage stands and what befell it -/

section Position

variable {β : Type}

/-- An end that tells whether the stage was barred, and whether it broke off. -/
def Ending.Tells (barred : Option (UInt64 × MachineFault)) (broke : Prop) : Ending β → Prop
  | .returned _ _ => barred = none ∧ ¬ broke
  | .broken _ => barred = none ∧ broke
  | .unpinned core cause => barred = some (core, cause) ∧ ¬ broke

/-- A stage stands where one does that is barred, that broke off, or that did neither. Until it tries to bind
itself it can still turn out to be barred. -/
def Position.Tells (barred : Option (UInt64 × MachineFault)) (broke : Prop) : Position β → Prop
  | .bind => ¬ broke
  | .refused core cause => barred = some (core, cause) ∧ ¬ broke
  | .enter | .loop _ => barred = none ∧ ¬ broke
  | .broken _ => barred = none ∧ broke
  | .leave ending | .finish ending | .ended ending => ending.Tells barred broke

/-- A step of a loop breaks off exactly if something broke. -/
def Next.Tells (broke : Prop) : Next β → Prop
  | .loop _ | .exit _ _ => ¬ broke
  | .broken _ => broke

theorem Next.Tells.position {barred : Option (UInt64 × MachineFault)} {broke : Prop} {next : Next β}
    (h : next.Tells broke) (hbarred : barred = none) : next.position.Tells barred broke := by
  cases next <;> exact ⟨hbarred, h⟩

theorem Position.Tells.of_loop {barred : Option (UInt64 × MachineFault)} {broke : Prop} {position : Position β} {s : β}
    (h : position.Tells barred broke) (hs : position = .loop s) : barred = none ∧ ¬ broke := by
  rw [hs] at h
  exact h

/-- Steps that a failed stage makes before it raises the signal. -/
def Position.untilAlarm : Position β → Nat
  | .bind => 2
  | .refused _ _ | .broken _ => 1
  | .enter | .loop _ | .leave _ | .finish _ | .ended _ => 0

/-- A stage that has shown that it runs and not yet that it has stopped. -/
def Position.isActive : Position β → Bool
  | .loop _ | .broken _ | .leave _ => true
  | .bind | .refused _ _ | .enter | .finish _ | .ended _ => false

namespace Worker

variable {job : Job} {kind : StageKind} {first : β} {worker : Worker β} {signal : Bool} {broke : Prop}

theorem tells_advance (h : worker.position.Tells (job.barred kind) broke) :
    (worker.advance job kind first signal).1.position.Tells (job.barred kind) broke := by
  obtain ⟨position, state, done⟩ := worker
  cases position with
  | bind =>
    show (afterBind job kind : Position β).Tells (job.barred kind) broke
    unfold afterBind Job.barred
    cases job.refused kind with
    | none => cases job.strict <;> exact ⟨rfl, h⟩
    | some refusal => cases job.strict <;> exact ⟨rfl, h⟩
  | refused | enter | loop | broken | leave | finish | ended => exact h

/-- Steps that a failed stage can still make before the signal is raised. -/
def untilAlarm (worker : Worker β) (signal : Bool) : Nat :=
  if signal then 0 else worker.position.untilAlarm

theorem untilAlarm_le (worker : Worker β) (signal : Bool) : worker.untilAlarm signal ≤ 2 := by
  unfold untilAlarm
  split
  · exact Nat.zero_le _
  · cases worker.position with
    | bind => exact le_rfl
    | refused | broken => exact Nat.le_succ 1
    | enter | loop | leave | finish | ended => exact Nat.zero_le _

theorem untilAlarm_of_hasEnded (hended : worker.hasEnded = true) (signal : Bool) : worker.untilAlarm signal = 0 := by
  obtain ⟨position, state, done⟩ := worker
  cases position with
  | ended ending => exact ite_self 0
  | bind | refused | enter | loop | broken | leave | finish => cases hended

theorem untilAlarm_mono {worker' : Worker β} {signal' : Bool} (hpos : worker'.position = worker.position)
    (hsignal : signal = true → signal' = true) : worker'.untilAlarm signal' ≤ worker.untilAlarm signal := by
  unfold untilAlarm
  rw [hpos]
  cases signal with
  | true => rw [hsignal rfl]
  | false =>
    split
    · exact Nat.zero_le _
    · exact le_rfl

/-- Where a failed stage has not raised the signal, a step of it leads on to that. -/
theorem untilAlarm_advance_lt (job : Job) (first : β) (h : worker.position.Tells (job.barred kind) broke)
    (hhonest : worker.Honest signal) (hfailed : job.barred kind ≠ none ∨ broke) (hquiet : signal ≠ true) :
    (∀ s, worker.position ≠ .loop s) ∧
      (worker.advance job kind first signal).1.untilAlarm (worker.advance job kind first signal).2 <
        worker.untilAlarm signal := by
  have halarm := hhonest.alarm
  obtain rfl : signal = false := Bool.eq_false_of_not_eq_true hquiet
  obtain ⟨position, state, done⟩ := worker
  cases position with
  | bind =>
    refine ⟨nofun, ?_⟩
    show (afterBind job kind : Position β).untilAlarm < 2
    rcases afterBind_eq (β := β) job kind with heq | ⟨core, cause, heq⟩ <;> rw [heq]
    · exact Nat.two_pos
    · exact Nat.one_lt_two
  | refused | broken => exact ⟨nofun, Nat.one_pos⟩
  -- A stage that has come to its loop and not broken off has not failed.
  | enter | loop => exact absurd hfailed (not_or.2 ⟨not_not.2 h.1, h.2⟩)
  | leave ending | finish ending | ended ending =>
    cases ending with
    | returned last exit => exact absurd hfailed (not_or.2 ⟨not_not.2 h.1, h.2⟩)
    | broken | unpinned => cases halarm rfl

/-- A stage shows that it has stopped, unless it is active. -/
def AtRest (worker : Worker β) : Prop :=
  worker.position.isActive = false → worker.state = .stopped

theorem AtRest.advance (h : worker.AtRest) : (worker.advance job kind first signal).1.AtRest := by
  obtain ⟨position, state, done⟩ := worker
  cases position with
  | bind => exact fun _ => h rfl
  | enter | broken => exact nofun
  | leave => exact fun _ => rfl
  | refused | loop | finish | ended => exact h

theorem AtRest.next (next : Next β) (state : StageState) (done : Bool) : AtRest ⟨next.position, state, done⟩ := by
  cases next <;> exact nofun

theorem AtRest.of_hasEnded (h : worker.AtRest) (hended : worker.hasEnded = true) : worker.state = .stopped := by
  obtain ⟨position, state, done⟩ := worker
  cases position with
  | ended ending => exact h rfl
  | bind | refused | enter | loop | broken | leave | finish => cases hended

end Worker

end Position

/-! ## The loops -/

namespace Intake

variable {broke : Prop}

theorem gather_tells (h : ¬ broke) (burst : Nat) (held : Array Descriptor) (tally : Tally) :
    (gather burst held tally).Tells broke := by
  unfold gather
  split
  · exact h
  · split <;> exact h

theorem close_tells (h : ¬ broke) (held : Array Descriptor) (tally : Tally) : (close held tally).Tells broke := by
  unfold close
  split <;> exact h

theorem afterPush_tells (h : ¬ broke) (items : Handoff Descriptor) (isLast : Bool) (tally : Tally) :
    (afterPush items isLast tally).Tells broke := by
  unfold afterPush
  split
  · split
    · exact h
    · split <;> exact h
  · exact h

/-- The source breaks off where the feed does. -/
theorem step_tells {job : Job} {calls : Nat} (h : ¬ job.workload.FeedBroke calls) (o : Outlet Descriptor)
    (s : Intake) :
    (s.step job o calls).2.2.Tells (job.workload.FeedBroke (s.step job o calls).2.1) := by
  obtain ⟨point, tally⟩ := s
  cases point with
  | readSignal =>
    simp only [Intake.step]
    split <;> exact h
  | readNeighbour =>
    simp only [Intake.step]
    split
    · exact h
    · exact gather_tells h _ _ _
  | pull held =>
    have hsucc : job.workload.FeedBroke (calls + 1) ↔ job.workload.feed calls = .broken :=
      Nat.exists_lt_succ_right.trans (or_iff_right h)
    simp only [Intake.step]
    cases hfeed : job.workload.feed calls with
    | event d => exact gather_tells (by simp [hsucc, hfeed]) _ _ _
    | ended => exact close_tells (by simp [hsucc, hfeed]) _ _
    | broken => exact hsucc.2 hfeed
  | push items isLast => exact afterPush_tells h _ _ _

theorem le_step_calls (job : Job) (o : Outlet Descriptor) (calls : Nat) (s : Intake) :
    calls ≤ (s.step job o calls).2.1 := by
  obtain ⟨point, tally⟩ := s
  cases point with
  | pull held => exact Nat.le_succ calls
  | readSignal | readNeighbour | push => exact le_rfl

end Intake

/-- Nothing breaks the extender off. -/
theorem Extension.step_tells (job : Job) (inbound : Ring Descriptor) (upDone : Bool) (o : Outlet UInt64)
    (s : Extension) : (s.step job inbound upDone o).2.2.Tells False := by
  obtain ⟨point, unwrapper, tally⟩ := s
  cases point with
  | readSignal | readDownstream | recheck =>
    simp only [Extension.step]
    split <;> exact not_false
  | pop | readUpstream => exact not_false
  | push items =>
    simp only [Extension.step, afterPush]
    split
    · split <;> exact not_false
    · exact not_false

namespace Delivery

theorem want_tells {broke : Prop} (h : ¬ broke) (job : Job) (s : Delivery) : (s.want job).Tells broke := by
  unfold want
  split
  · split <;> exact h
  · exact h

/-- The sink breaks off where the receiver does. -/
theorem step_tells {job : Job} {delivered : Array UInt64} (h : ¬ job.workload.ReceiverBroke delivered.size)
    (outbound : Ring UInt64) (signal upDone : Bool) (s : Delivery) :
    (s.step job outbound signal upDone delivered).2.2.Tells
      (job.workload.ReceiverBroke (s.step job outbound signal upDone delivered).2.1.size) := by
  obtain ⟨point, count⟩ := s
  cases point with
  | readSignal =>
    simp only [Delivery.step]
    split
    · exact h
    · exact want_tells h _ _
  | pop want => exact h
  | readUpstream => exact h
  | recheck =>
    simp only [Delivery.step]
    split <;> exact h
  | deliver left size =>
    cases left with
    | nil => exact h
    | cons value left =>
      have hsucc : job.workload.ReceiverBroke (delivered.push value).size ↔
          job.workload.breaksAt (delivered.push value).size = true := by
        rw [Array.size_push]
        exact Nat.exists_lt_succ_right.trans (or_iff_right h)
      simp only [Delivery.step]
      split
      · rename_i hbreaks
        exact hsucc.2 hbreaks
      · rename_i hgoes
        exact fun hbroke => hgoes (hsucc.1 hbroke)

theorem le_step_delivered (job : Job) (outbound : Ring UInt64) (signal upDone : Bool) (delivered : Array UInt64)
    (s : Delivery) : delivered.size ≤ (s.step job outbound signal upDone delivered).2.1.size := by
  obtain ⟨point, count⟩ := s
  cases point with
  | deliver left size =>
    cases left with
    | nil => exact le_rfl
    | cons value left =>
      show _ ≤ (delivered.push value).size
      rw [Array.size_push]
      exact Nat.le_succ _
  | readSignal | pop | readUpstream | recheck => exact le_rfl

end Delivery

namespace World

variable {job : Job} {w begun : World} {stage : StageKind}

/-! ## Whole runs -/

/-- A stage broke off. -/
def Broke (job : Job) (w : World) : StageKind → Prop
  | .source => job.workload.FeedBroke w.calls
  | .extender => False
  | .sink => job.workload.ReceiverBroke w.delivered.size

/-- The fault that befell a stage, by the way it failed. -/
inductive Befell (job : Job) (w : World) (stage : StageKind) : Fault → Prop
  | barred {core : UInt64} {cause : MachineFault} (h : job.barred stage = some (core, cause)) :
    Befell job w stage (.affinity stage core cause)
  | broke (h : w.Broke job stage) : Befell job w stage (.stagePanicked stage)

theorem Befell.failed {fault : Fault} (h : w.Befell job stage fault) :
    job.barred stage ≠ none ∨ w.Broke job stage := by
  cases h with
  | barred h =>
    rw [h]
    exact .inl nofun
  | broke h => exact .inr h

/-- A run whose stages stand where what befell them put them. -/
structure Fated (job : Job) (w : World) : Prop where
  source : w.source.position.Tells (job.barred .source) (w.Broke job .source)
  extender : w.extender.position.Tells (job.barred .extender) (w.Broke job .extender)
  sink : w.sink.position.Tells (job.barred .sink) (w.Broke job .sink)

theorem start_fated (job : Job) (signal : Bool) (states : PerStage StageState) (inbound : Ring Descriptor)
    (outbound : Ring UInt64) : (World.start signal states inbound outbound).Fated job := by
  refine ⟨?_, not_false, ?_⟩
  · rintro ⟨call, hlt, -⟩
    exact absurd hlt (Nat.not_lt_zero call)
  · rintro ⟨n, hlt, -⟩
    exact absurd hlt (Nat.not_lt_zero n)

theorem Fated.step (h : w.Fated job) (stage : StageKind) : (w.step job stage).Fated job := by
  cases stage with
  | source =>
    show (w.stepSource job).Fated job
    rcases w.stepSource_cases job with ⟨s, hpos, heq⟩ | ⟨-, heq⟩ <;> rw [heq]
    · obtain ⟨hbarred, hfine⟩ := h.source.of_loop hpos
      exact ⟨(Intake.step_tells hfine _ _).position hbarred, h.extender, h.sink⟩
    · exact ⟨Worker.tells_advance h.source, h.extender, h.sink⟩
  | extender =>
    show (w.stepExtender job).Fated job
    rcases w.stepExtender_cases job with ⟨s, hpos, heq⟩ | ⟨-, heq⟩ <;> rw [heq]
    · obtain ⟨hbarred, -⟩ := h.extender.of_loop hpos
      exact ⟨h.source, (Extension.step_tells _ _ _ _ _).position hbarred, h.sink⟩
    · exact ⟨h.source, Worker.tells_advance h.extender, h.sink⟩
  | sink =>
    show (w.stepSink job).Fated job
    rcases w.stepSink_cases job with ⟨s, hpos, heq⟩ | ⟨-, heq⟩ <;> rw [heq]
    · obtain ⟨hbarred, hfine⟩ := h.sink.of_loop hpos
      exact ⟨h.source, h.extender, (Delivery.step_tells hfine _ _ _ _).position hbarred⟩
    · exact ⟨h.source, h.extender, Worker.tells_advance h.sink⟩

theorem Reachable.fated (hreach : Reachable job begun w) (hbegun : begun.Fated job) : w.Fated job := by
  induction hreach with
  | begun => exact hbegun
  | step stage _ ih => exact ih.step stage
  | raise _ ih => exact ⟨ih.source, ih.extender, ih.sink⟩

/-! ## The states of the stages -/

/-- A run whose stages show that they have stopped, unless they are active. -/
structure Shown (w : World) : Prop where
  source : w.source.AtRest
  extender : w.extender.AtRest
  sink : w.sink.AtRest

theorem start_shown (signal : Bool) (inbound : Ring Descriptor) (outbound : Ring UInt64) :
    (World.start signal ⟨.stopped, .stopped, .stopped⟩ inbound outbound).Shown :=
  ⟨fun _ => rfl, fun _ => rfl, fun _ => rfl⟩

theorem Shown.step (h : w.Shown) (stage : StageKind) : (w.step job stage).Shown := by
  cases stage with
  | source =>
    show (w.stepSource job).Shown
    rcases w.stepSource_cases job with ⟨s, -, heq⟩ | ⟨-, heq⟩ <;> rw [heq]
    · exact ⟨.next _ _ _, h.extender, h.sink⟩
    · exact ⟨h.source.advance, h.extender, h.sink⟩
  | extender =>
    show (w.stepExtender job).Shown
    rcases w.stepExtender_cases job with ⟨s, -, heq⟩ | ⟨-, heq⟩ <;> rw [heq]
    · exact ⟨h.source, .next _ _ _, h.sink⟩
    · exact ⟨h.source, h.extender.advance, h.sink⟩
  | sink =>
    show (w.stepSink job).Shown
    rcases w.stepSink_cases job with ⟨s, -, heq⟩ | ⟨-, heq⟩ <;> rw [heq]
    · exact ⟨h.source, h.extender, .next _ _ _⟩
    · exact ⟨h.source, h.extender, h.sink.advance⟩

theorem Reachable.shown (hreach : Reachable job begun w) (hbegun : begun.Shown) : w.Shown := by
  induction hreach with
  | begun => exact hbegun
  | step stage _ ih => exact ih.step stage
  | raise _ ih => exact ⟨ih.source, ih.extender, ih.sink⟩

/-- Once all stages have ended they show that they have stopped. -/
theorem Shown.states (h : w.Shown) (hended : ∀ stage, w.hasEnded stage = true) :
    w.states = ⟨.stopped, .stopped, .stopped⟩ := by
  have hsource := h.source.of_hasEnded (hended .source)
  have hextender := h.extender.of_hasEnded (hended .extender)
  have hsink := h.sink.of_hasEnded (hended .sink)
  rw [World.states, hsource, hextender, hsink]

/-! ## The outcome -/

theorem hasEnded_of_ended? {β : Type} {tally : β → Tally} {worker : Worker β} {result : Except Fault StageReport}
    (h : result?.ended? tally stage worker = some result) : worker.hasEnded = true := by
  unfold result?.ended? at h
  split at h
  · rename_i hpos
    rw [Worker.hasEnded, hpos]
  · cases h

/-- A run has an outcome only once all stages have ended. -/
theorem hasEnded_of_outcome? {outcome : Except Fault RunReport} (h : w.outcome? job = some outcome)
    (stage : StageKind) : w.hasEnded stage = true := by
  obtain ⟨source, hsource, h⟩ := Option.bind_eq_some_iff.1 h
  obtain ⟨extender, hextender, h⟩ := Option.bind_eq_some_iff.1 h
  obtain ⟨sink, hsink, -⟩ := Option.bind_eq_some_iff.1 h
  cases stage with
  | source => exact hasEnded_of_ended? hsource
  | extender => exact hasEnded_of_ended? hextender
  | sink => exact hasEnded_of_ended? hsink

/-- The fault of the earliest stage that failed, in the order source, extender, sink. -/
def EarliestFault (job : Job) (w : World) (fault : Fault) : Prop :=
  ∃ stage, w.Befell job stage fault ∧
    ∀ earlier : StageKind, earlier.index < stage.index → ∀ other, ¬ w.Befell job earlier other

theorem earliestFault_iff {fault other : Fault} (hfault : ∀ f, w.Befell job stage f ↔ f = fault)
    (hearlier : ∀ earlier : StageKind, earlier.index < stage.index → ∀ f, ¬ w.Befell job earlier f) :
    w.EarliestFault job other ↔ other = fault := by
  constructor
  · rintro ⟨failed, hbefell, hnone⟩
    rcases lt_trichotomy failed.index stage.index with hlt | heq | hgt
    · exact absurd hbefell (hearlier failed hlt other)
    · have hsame : failed = stage := by cases failed <;> cases stage <;> first | rfl | cases heq
      exact (hfault other).1 (hsame ▸ hbefell)
    · exact absurd ((hfault fault).2 rfl) (hnone stage hgt fault)
  · rintro rfl
    exact ⟨stage, (hfault other).2 rfl, hearlier⟩

/-- What a stage that has ended leaves behind tells what befell it. -/
theorem ended?_spec {β : Type} {tally : β → Tally} {worker : Worker β}
    (h : worker.position.Tells (job.barred stage) (w.Broke job stage)) (hended : worker.hasEnded = true) :
    (∃ report, result?.ended? tally stage worker = some (.ok report)) ∧ (∀ fault, ¬ w.Befell job stage fault) ∨
      ∃ fault, result?.ended? tally stage worker = some (.error fault) ∧
        ∀ other, w.Befell job stage other ↔ other = fault := by
  obtain ⟨position, state, done⟩ := worker
  cases position with
  | ended ending =>
    cases ending with
    | returned last exit =>
      obtain ⟨hbarred, hfine⟩ := h
      refine .inl ⟨⟨_, rfl⟩, fun fault hbefell => ?_⟩
      rcases hbefell.failed with hne | hbroke
      · exact hne hbarred
      · exact hfine hbroke
    | broken last =>
      obtain ⟨hbarred, hbroke⟩ := h
      refine .inr ⟨_, rfl, fun other => ⟨fun hbefell => ?_, ?_⟩⟩
      · cases hbefell with
        | barred hrefused => cases hbarred.symm.trans hrefused
        | broke => rfl
      · rintro rfl
        exact .broke hbroke
    | unpinned core cause =>
      obtain ⟨hbarred, hfine⟩ := h
      refine .inr ⟨_, rfl, fun other => ⟨fun hbefell => ?_, ?_⟩⟩
      · cases hbefell with
        | barred hrefused =>
          cases hbarred.symm.trans hrefused
          rfl
        | broke hbroke => exact absurd hbroke hfine
      · rintro rfl
        exact .barred hbarred
  | bind | refused | enter | loop | broken | leave | finish => cases hended

theorem Fated.result (h : w.Fated job) (hended : w.hasEnded stage = true) :
    (∃ report, w.result? stage = some (.ok report)) ∧ (∀ fault, ¬ w.Befell job stage fault) ∨
      ∃ fault, w.result? stage = some (.error fault) ∧ ∀ other, w.Befell job stage other ↔ other = fault := by
  cases stage with
  | source => exact ended?_spec h.source hended
  | extender => exact ended?_spec h.extender hended
  | sink => exact ended?_spec h.sink hended

/-- A run whose stages have all ended returns its report if no stage failed, and else the fault of the earliest
that did. -/
theorem Fated.outcome (h : w.Fated job) (hended : ∀ stage, w.hasEnded stage = true) :
    (∃ report, w.outcome? job = some (.ok report)) ∧ (∀ stage fault, ¬ w.Befell job stage fault) ∨
      ∃ fault, w.outcome? job = some (.error fault) ∧ ∀ other, w.EarliestFault job other ↔ other = fault := by
  have hsink := h.result (hended .sink)
  have hextender := h.result (hended .extender)
  -- The results are looked at in the order of the stages, whichever of them failed first.
  rcases h.result (hended .source) with ⟨⟨source, hsource⟩, hfine⟩ | ⟨fault, hsource, hfault⟩
  · rcases hextender with ⟨⟨extender, hextender⟩, hfine'⟩ | ⟨fault, hextender, hfault⟩
    · rcases hsink with ⟨⟨sink, hsink⟩, hfine''⟩ | ⟨fault, hsink, hfault⟩
      · refine .inl ⟨⟨_, by rw [outcome?, hsource, hextender, hsink]; rfl⟩, fun stage => ?_⟩
        cases stage with
        | source => exact hfine
        | extender => exact hfine'
        | sink => exact hfine''
      · refine .inr ⟨fault, by rw [outcome?, hsource, hextender, hsink]; rfl, fun other => ?_⟩
        refine earliestFault_iff hfault fun earlier hearlier => ?_
        cases earlier with
        | source => exact hfine
        | extender => exact hfine'
        | sink => exact absurd hearlier (lt_irrefl _)
    · refine .inr ⟨fault, ?_, fun other => earliestFault_iff hfault fun earlier hearlier => ?_⟩
      · rcases hsink with ⟨⟨sink, hsink⟩, -⟩ | ⟨fault, hsink, -⟩ <;> rw [outcome?, hsource, hextender, hsink] <;> rfl
      · cases earlier with
        | source => exact hfine
        | extender => exact absurd hearlier (lt_irrefl _)
        | sink => exact absurd hearlier (by decide)
  · refine .inr ⟨fault, ?_, fun other => earliestFault_iff hfault fun earlier hearlier => ?_⟩
    · rcases hextender with ⟨⟨extender, hextender⟩, -⟩ | ⟨fault', hextender, -⟩ <;>
        rcases hsink with ⟨⟨sink, hsink⟩, -⟩ | ⟨fault', hsink, -⟩ <;>
          rw [outcome?, hsource, hextender, hsink] <;> rfl
    · exact absurd hearlier (Nat.not_lt_zero _)

theorem Fated.earliestFault {fault : Fault} (h : w.Fated job) (houtcome : w.outcome? job = some (.error fault)) :
    w.EarliestFault job fault := by
  rcases h.outcome (hasEnded_of_outcome? houtcome) with ⟨⟨report, hreport⟩, -⟩ | ⟨fault', hfault, hiff⟩
  · cases houtcome.symm.trans hreport
  · cases houtcome.symm.trans hfault
    exact (hiff fault).2 rfl

end World

end TimestampRelay
