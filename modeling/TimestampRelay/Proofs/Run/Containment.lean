/-
Failures stay contained. A failed stage raises the signal before it sets its completion flag, so all stages end
soon and the run returns the fault of the earliest one that failed. What it leaves behind is a raised signal and
stages that have stopped, and no later run of the pipeline pulls or delivers anything.
-/
import TimestampRelay.Proofs.Run.Failure

namespace TimestampRelay

namespace World

variable {job : Job} {w begun : World} {stage : StageKind} {fault : Fault}

/-! ## What befell a stage stays so -/

theorem le_calls_apply (job : Job) (w : World) (move : Move) : w.calls ≤ (w.apply job move).calls := by
  by_cases hstep : move = .step .source
  · subst hstep
    show w.calls ≤ (w.stepSource job).calls
    rcases w.stepSource_cases job with ⟨s, -, heq⟩ | ⟨-, heq⟩ <;> rw [heq]
    exact Intake.le_step_calls _ _ _ _
  · exact (apply_of_ne_source job w hstep).2.ge

theorem le_delivered_apply (job : Job) (w : World) (move : Move) :
    w.delivered.size ≤ (w.apply job move).delivered.size := by
  by_cases hstep : move = .step .sink
  · subst hstep
    show w.delivered.size ≤ (w.stepSink job).delivered.size
    rcases w.stepSink_cases job with ⟨s, -, heq⟩ | ⟨-, heq⟩ <;> rw [heq]
    exact Delivery.le_step_delivered _ _ _ _ _ _
  · rw [(apply_of_ne_sink job w hstep).2]

theorem Broke.apply (h : w.Broke job stage) (move : Move) : (w.apply job move).Broke job stage := by
  cases stage with
  | source =>
    obtain ⟨call, hlt, hbroken⟩ := h
    exact ⟨call, hlt.trans_le (le_calls_apply job w move), hbroken⟩
  | extender => exact h
  | sink =>
    obtain ⟨n, hlt, hbreaks⟩ := h
    exact ⟨n, hlt.trans_le (le_delivered_apply job w move), hbreaks⟩

theorem Befell.apply (h : w.Befell job stage fault) (move : Move) : (w.apply job move).Befell job stage fault := by
  cases h with
  | barred h => exact .barred h
  | broke h => exact .broke (h.apply move)

/-- A run in the course of which a stage has failed. -/
structure Failing (job : Job) (begun : World) (stage : StageKind) (fault : Fault) (w : World) : Prop where
  reachable : Reachable job begun w
  befell : w.Befell job stage fault

/-! ## Moves up to where a run stands -/

theorem Reachable.signal (h : Reachable job begun w) (hbegun : begun.signal = true) : w.signal = true := by
  induction h with
  | begun => exact hbegun
  | step stage _ ih => exact signal_apply (.step stage) ih
  | raise => rfl

theorem Reachable.replayed (h : Reachable job begun w) : ∃ moves, w = begun.applyAll job moves := by
  induction h with
  | begun => exact ⟨[], rfl⟩
  | step stage _ ih =>
    obtain ⟨moves, rfl⟩ := ih
    refine ⟨moves ++ [.step stage], ?_⟩
    rw [applyAll_append]
    rfl
  | raise _ ih =>
    obtain ⟨moves, rfl⟩ := ih
    refine ⟨moves ++ [.raiseSignal], ?_⟩
    rw [applyAll_append]
    rfl

/-! ## The alarm -/

/-- Steps that a failed stage can still make before the signal is raised. -/
def untilAlarm (w : World) : StageKind → Nat
  | .source => w.source.untilAlarm w.signal
  | .extender => w.extender.untilAlarm w.signal
  | .sink => w.sink.untilAlarm w.signal

theorem untilAlarm_le (w : World) (stage : StageKind) : w.untilAlarm stage ≤ 2 := by
  cases stage <;> exact Worker.untilAlarm_le _ _

theorem untilAlarm_of_signal (h : w.signal = true) (stage : StageKind) : w.untilAlarm stage = 0 := by
  cases stage <;> exact if_pos h

theorem untilAlarm_of_hasEnded (h : w.hasEnded stage = true) : w.untilAlarm stage = 0 := by
  cases stage <;> exact Worker.untilAlarm_of_hasEnded h _

theorem untilAlarm_apply_le {move : Move} (hne : move ≠ .step stage) :
    (w.apply job move).untilAlarm stage ≤ w.untilAlarm stage := by
  cases stage with
  | source => exact Worker.untilAlarm_mono (apply_of_ne_source job w hne).1 (signal_apply move)
  | extender => exact Worker.untilAlarm_mono (apply_of_ne_extender job w hne) (signal_apply move)
  | sink => exact Worker.untilAlarm_mono (apply_of_ne_sink job w hne).1 (signal_apply move)

/-- Where a failed stage has not raised the signal, a step of it leads on to that. -/
theorem Fated.untilAlarm_step_lt (hf : w.Fated job) (hc : w.Causes) (h : w.Befell job stage fault)
    (hquiet : w.signal ≠ true) : (w.step job stage).untilAlarm stage < w.untilAlarm stage := by
  cases stage with
  | source =>
    obtain ⟨hout, hlt⟩ := Worker.untilAlarm_advance_lt job Intake.first hf.source hc.source h.failed hquiet
    show (w.stepSource job).untilAlarm .source < _
    rcases w.stepSource_cases job with ⟨s, hs, -⟩ | ⟨-, heq⟩
    · exact absurd hs (hout s)
    · rw [heq]
      exact hlt
  | extender =>
    obtain ⟨hout, hlt⟩ :=
      Worker.untilAlarm_advance_lt job (Extension.first job.start) hf.extender hc.extender h.failed hquiet
    show (w.stepExtender job).untilAlarm .extender < _
    rcases w.stepExtender_cases job with ⟨s, hs, -⟩ | ⟨-, heq⟩
    · exact absurd hs (hout s)
    · rw [heq]
      exact hlt
  | sink =>
    obtain ⟨hout, hlt⟩ := Worker.untilAlarm_advance_lt job Delivery.first hf.sink hc.sink h.failed hquiet
    show (w.stepSink job).untilAlarm .sink < _
    rcases w.stepSink_cases job with ⟨s, hs, -⟩ | ⟨-, heq⟩
    · exact absurd hs (hout s)
    · rw [heq]
      exact hlt

theorem Fated.untilAlarm_step_le (hf : w.Fated job) (hc : w.Causes) (h : w.Befell job stage fault) :
    (w.step job stage).untilAlarm stage ≤ w.untilAlarm stage - 1 := by
  by_cases hsignal : w.signal = true
  · have hstill : (w.step job stage).signal = true := signal_apply (.step stage) hsignal
    rw [untilAlarm_of_signal hstill]
    exact Nat.zero_le _
  · exact Nat.le_sub_one_of_lt (hf.untilAlarm_step_lt hc h hsignal)

theorem Causes.done_get (h : w.Causes) (stage : StageKind) : w.done.get stage = w.hasEnded stage := by
  cases stage with
  | source => exact h.source.done_eq
  | extender => exact h.extender.done_eq
  | sink => exact h.sink.done_eq

/-- A failed stage that has ended has raised the signal. -/
theorem Fated.signal_of_hasEnded (hf : w.Fated job) (hc : w.Causes) (h : w.Befell job stage fault)
    (hended : w.hasEnded stage = true) : w.signal = true := by
  by_contra hquiet
  have hlt := hf.untilAlarm_step_lt hc h hquiet
  rw [untilAlarm_of_hasEnded hended] at hlt
  exact absurd hlt (Nat.not_lt_zero _)

end World

namespace Pipeline

variable {p q : Pipeline} {m : Machine} {load : Workload} {begun w : World} {stage : StageKind} {fault : Fault}

theorem reachable_fated (hlaunch : p.launch m = .ok begun) (hreach : World.Reachable (p.job m load) begun w) :
    w.Fated (p.job m load) := by
  refine hreach.fated ?_
  rw [launch_eq hlaunch]
  exact World.start_fated _ _ _ _ _

/-- As long as the run of a failed stage goes on, every step of the stage brings the signal closer. -/
theorem failing_ranking (hlaunch : p.launch m = .ok begun) (load : Workload) (stage : StageKind) (fault : Fault) :
    World.Ranking (p.job m load) stage (World.Failing (p.job m load) begun stage fault)
      fun v => v.untilAlarm stage where
  keeps _ move hinner hv := ⟨hv.reachable.apply hinner, hv.befell.apply move⟩
  other _ _ _ hne := World.untilAlarm_apply_le hne
  own _ hv :=
    (reachable_fated hlaunch hv.reachable).untilAlarm_step_le (reachable_causes hlaunch hv.reachable) hv.befell

/-- A failed stage has raised the signal after two rounds. -/
theorem alarmed_of_rounds (hlaunch : p.launch m = .ok begun)
    (h : World.Failing (p.job m load) begun stage fault w) {rounds : List (List World.Move)}
    (hrounds : ∀ round ∈ rounds, World.Round round) (hlength : 2 ≤ rounds.length) :
    (w.applyAll (p.job m load) rounds.flatten).signal = true := by
  have hranking := failing_ranking hlaunch load stage fault
  obtain ⟨hreach, hbefell⟩ := hranking.kept_applyAll h (World.inner_of_rounds hrounds)
  have hspent := hranking.rounds_le h hrounds
  have hle := w.untilAlarm_le stage
  by_contra hquiet
  have hlt := (reachable_fated hlaunch hreach).untilAlarm_step_lt (reachable_causes hlaunch hreach) hbefell hquiet
  omega

/-- A run in which a stage has failed returns a fault after so many rounds. -/
theorem fails_of_rounds (hlaunch : p.launch m = .ok begun) (h : World.Failing (p.job m load) begun stage fault w)
    {rounds : List (List World.Move)} (hrounds : ∀ round ∈ rounds, World.Round round)
    (hlength : 2 * p.config.burst + p.config.drainRetries.toNat + 17 ≤ rounds.length) :
    ∃ fault', (w.applyAll (p.job m load) rounds.flatten).outcome? (p.job m load) = some (.error fault') := by
  have hearly : ∀ round ∈ rounds.take 2, World.Round round := fun round hround =>
    hrounds round (List.mem_of_mem_take hround)
  have hlate : ∀ round ∈ rounds.drop 2, World.Round round := fun round hround =>
    hrounds round (List.mem_of_mem_drop hround)
  -- Two rounds raise the signal, and the others end the stages.
  have hsignal := alarmed_of_rounds hlaunch h hearly (by rw [List.length_take]; omega)
  have hended : ∀ stage, (w.applyAll (p.job m load) rounds.flatten).hasEnded stage = true := by
    intro stage
    rw [← List.take_append_drop 2 rounds, List.flatten_append, World.applyAll_append]
    refine ends_of_rounds hlaunch (h.reachable.applyAll (World.inner_of_rounds hearly)) hsignal hlate ?_ stage
    rw [List.length_drop]
    omega
  obtain ⟨hreach, hbefell⟩ :=
    (failing_ranking hlaunch load stage fault).kept_applyAll h (World.inner_of_rounds hrounds)
  rcases (reachable_fated hlaunch hreach).outcome hended with ⟨-, hnone⟩ | ⟨fault', houtcome, -⟩
  · exact absurd hbefell (hnone stage fault)
  · exact ⟨fault', houtcome⟩

/-! ## Runs one after the other -/

/-- What a pipeline can become: its signal is raised, and it makes runs, one after the other. -/
inductive Becomes (p : Pipeline) : Pipeline → Prop
  | same : Becomes p p
  | raised {q : Pipeline} (h : Becomes p q) : Becomes p { q with signal := true }
  | ran {q : Pipeline} {m : Machine} {load : Workload} {begun w : World} (h : Becomes p q)
    (hlaunch : q.launch m = .ok begun) (hreach : World.Reachable (q.job m load) begun w)
    (hended : ∀ stage, w.hasEnded stage = true) : Becomes p (q.settle w)

theorem signal_of_launch (hlaunch : p.launch m = .ok begun) (hsignal : p.signal = true) : begun.signal = true := by
  rw [launch_eq hlaunch]
  exact hsignal

theorem ofSettings_states {s : Settings} (h : Pipeline.ofSettings s = .ok p) :
    p.states = ⟨.stopped, .stopped, .stopped⟩ := by
  unfold ofSettings at h
  cases hconfig : s.config with
  | error fault =>
    rw [hconfig] at h
    cases h
  | ok config =>
    rw [hconfig] at h
    cases h
    rfl

theorem reachable_shown (hlaunch : p.launch m = .ok begun) (hreach : World.Reachable (p.job m load) begun w)
    (hstates : p.states = ⟨.stopped, .stopped, .stopped⟩) : w.Shown := by
  refine hreach.shown ?_
  rw [launch_eq hlaunch, hstates]
  exact World.start_shown _ _ _

/-- A signal that was raised stays so. -/
theorem Becomes.signal (h : p.Becomes q) (hsignal : p.signal = true) : q.signal = true := by
  induction h with
  | same => exact hsignal
  | raised => rfl
  | ran _ hlaunch hreach _ ih => exact hreach.signal (signal_of_launch hlaunch ih)

/-- Between runs all stages are stopped. -/
theorem Becomes.states (h : p.Becomes q) (hstates : p.states = ⟨.stopped, .stopped, .stopped⟩) :
    q.states = ⟨.stopped, .stopped, .stopped⟩ := by
  induction h with
  | same => exact hstates
  | raised _ ih => exact ih
  | ran _ hlaunch hreach hended ih => exact (reachable_shown hlaunch hreach ih).states hended

/-- A run that begins under a raised signal pulls nothing and delivers nothing. -/
theorem untouched_of_signal (hlaunch : p.launch m = .ok begun) (hreach : World.Reachable (p.job m load) begun w)
    (hsignal : p.signal = true) : w.calls = 0 ∧ w.delivered = #[] := by
  have hraised := signal_of_launch hlaunch hsignal
  obtain ⟨moves, rfl⟩ := hreach.replayed
  have hsource : begun.Told .source := .inl hraised
  have hsink : begun.Told .sink := hraised
  have hcalls := World.applyAll_le (fun v => v.calls + v.callsLeft (p.job m load))
    (fun v move hv => World.callsLeft_apply hv move) hsource moves
  have hdelivered := World.applyAll_le (fun v => v.delivered.size + v.deliveriesLeft)
    (fun v move hv => World.deliveriesLeft_apply (p.job m load) hv move) hsink moves
  -- No stage has begun anything that it could still complete.
  have hnothing : begun.calls + begun.callsLeft (p.job m load) = 0 ∧ begun.delivered.size + begun.deliveriesLeft = 0 := by
    rw [launch_eq hlaunch]
    exact ⟨rfl, rfl⟩
  constructor
  · omega
  · refine Array.eq_empty_of_size_eq_zero ?_
    omega

/-- Neither the pipeline nor anything that it becomes makes a run that pulls or delivers. -/
def Silenced (p : Pipeline) : Prop :=
  ∀ (q : Pipeline) (m : Machine) (load : Workload) (begun w : World), p.Becomes q → q.launch m = .ok begun →
    World.Reachable (q.job m load) begun w → w.calls = 0 ∧ w.delivered = #[]

theorem silenced_of_signal (hsignal : p.signal = true) : p.Silenced := by
  intro q m load begun w hq hlaunch hreach
  exact untouched_of_signal hlaunch hreach (hq.signal hsignal)

/-! ## Failures -/

/-- A run returns a fault exactly if a stage failed, and then that of the earliest stage that did. It leaves the
signal raised and all stages stopped, and no later run of the pipeline pulls or delivers anything. Once a failed
stage has set its completion flag the signal is raised, and it stays so. And a run in which a stage has failed does
return a fault: after so many rounds, in each of which every stage makes a step. -/
theorem failures_contained {s : Settings} {built : Pipeline} (hbuilt : Pipeline.ofSettings s = .ok built)
    (hp : built.Becomes p) (hlaunch : p.launch m = .ok begun)
    (hreach : World.Reachable (p.job m load) begun w) :
    let job := p.job m load
    ((∃ fault, w.outcome? job = some (.error fault)) ↔
        (∀ stage, w.hasEnded stage = true) ∧ ∃ stage fault, w.Befell job stage fault) ∧
      (∀ fault, w.outcome? job = some (.error fault) →
        w.EarliestFault job fault ∧ w.signal = true ∧ w.states = ⟨.stopped, .stopped, .stopped⟩ ∧
          (∀ stage, w.hasEnded stage = true) ∧ (p.settle w).Silenced) ∧
      ∀ stage fault, w.Befell job stage fault →
        (w.done.get stage = true → ∀ moves, (w.applyAll job moves).signal = true) ∧
          ∀ rounds : List (List World.Move), (∀ round ∈ rounds, World.Round round) →
            2 * p.config.burst + p.config.drainRetries.toNat + 17 ≤ rounds.length →
              ∃ fault', (w.applyAll job rounds.flatten).outcome? job = some (.error fault') := by
  intro job
  have hfated : w.Fated job := reachable_fated hlaunch hreach
  have hcauses : w.Causes := reachable_causes hlaunch hreach
  have hstates := hp.states (ofSettings_states hbuilt)
  refine ⟨⟨?_, ?_⟩, ?_, ?_⟩
  · rintro ⟨fault, houtcome⟩
    obtain ⟨stage, hbefell, -⟩ := hfated.earliestFault houtcome
    exact ⟨World.hasEnded_of_outcome? houtcome, stage, fault, hbefell⟩
  · rintro ⟨hended, stage, fault, hbefell⟩
    rcases hfated.outcome hended with ⟨-, hnone⟩ | ⟨fault', houtcome, -⟩
    · exact absurd hbefell (hnone stage fault)
    · exact ⟨fault', houtcome⟩
  · intro fault houtcome
    have hended := World.hasEnded_of_outcome? houtcome
    have hearliest := hfated.earliestFault houtcome
    obtain ⟨stage, hbefell, -⟩ := id hearliest
    have hsignal : w.signal = true := hfated.signal_of_hasEnded hcauses hbefell (hended stage)
    exact ⟨hearliest, hsignal, (reachable_shown hlaunch hreach hstates).states hended, hended,
      silenced_of_signal hsignal⟩
  · intro stage fault hbefell
    constructor
    · -- The flag is set only at the end of a stage, and a failed one raises the signal before that.
      intro hdone moves
      have hended : w.hasEnded stage = true := by
        rw [← hcauses.done_get]
        exact hdone
      exact World.signal_applyAll (hfated.signal_of_hasEnded hcauses hbefell hended) moves
    · intro rounds hrounds hlength
      exact fails_of_rounds hlaunch ⟨hreach, hbefell⟩ hrounds hlength

/-- A feed that breaks off at its second call, and a receiver that does at the first delivery. -/
def brittle : Workload where
  feed := fun call => if call = 0 then .event ⟨0, 0, 250⟩ else .broken
  breaksAt := fun n => n == 1

/-- The sink has broken off and ended before the source, which had looked at the signal in time, makes the call at
which the feed breaks off. The stages go on in turns, and the run returns the fault of the source. -/
theorem source_named_before_sink :
    let job := (narrow none).job .willing brittle
    let begun := World.start false ⟨.stopped, .stopped, .stopped⟩ (.empty ⟨1, by decide⟩)
      (.empty ⟨0, by decide⟩)
    let early := begun.applyAll job
      ((List.replicate 8 StageKind.source ++ List.replicate 6 StageKind.extender ++
        List.replicate 8 StageKind.sink).map .step)
    let turns := List.replicate 19 [World.Move.step .source, .step .extender, .step .sink]
    let w := early.applyAll job turns.flatten
    early.calls = 1 ∧ early.Befell job .sink (.stagePanicked .sink) ∧ early.done.get .sink = true ∧
      early.signal = true ∧ w.outcome? job = some (.error (.stagePanicked .source)) ∧
      w.states = ⟨.stopped, .stopped, .stopped⟩ ∧ ((narrow none).settle w).Silenced := by
  intro job begun early turns w
  have hbuilt : Pipeline.ofSettings
      { inboundCapacity := 2, outboundCapacity := 1, burst := 1, fieldWidth := 8, seed := 240, drainRetries := 0
        prefault := false } = .ok (narrow none) := rfl
  have hearly : World.Reachable job begun early := .steps .begun _
  have hdone : early.done.get .sink = true := by decide +kernel
  have hdelivered : early.delivered.size = 1 := by decide +kernel
  have hbefell : early.Befell job .sink (.stagePanicked .sink) := .broke ⟨0, by rw [hdelivered]; decide, rfl⟩
  have hturns : ∀ round ∈ turns, World.Round round := by
    intro round hround
    rw [List.eq_of_mem_replicate hround]
    refine ⟨by simp [World.Move.Inner], fun stage => ?_⟩
    cases stage <;> decide
  obtain ⟨-, -, hfailed⟩ := failures_contained (m := .willing) hbuilt .same rfl hearly
  obtain ⟨hsignal, hends⟩ := hfailed .sink _ hbefell
  obtain ⟨fault, houtcome⟩ := hends turns hturns (by decide)
  have hsource : w.outcome? job = some (.error (.stagePanicked .source)) := by decide +kernel
  have hreach : World.Reachable job begun w := hearly.applyAll (World.inner_of_rounds hturns)
  obtain ⟨-, hleft, -⟩ := failures_contained (m := .willing) hbuilt .same rfl hreach
  obtain ⟨-, -, hstates, -, hsilenced⟩ := hleft fault houtcome
  have hraised := hsignal hdone []
  rw [World.applyAll, List.foldl_nil] at hraised
  exact ⟨by decide +kernel, hbefell, hdone, hraised, hsource, hstates, hsilenced⟩

end Pipeline

end TimestampRelay
