/-
How far the source runs ahead of the receiver. An event that was pulled and whose value is not delivered is in
one of the rings or in the hands of a stage. A ring holds no more than its capacity and a stage no more than a
burst, also one that has stopped or broken off.
-/
import TimestampRelay.Proofs.Run.Failure

namespace TimestampRelay

/-! ## What a stage holds -/

namespace Intake

variable {job : Job} {o : Outlet Descriptor} {calls : Nat} {s last : Intake}

theorem Sound.length_held_le {signal downDone : Bool} (hs : s.Sound job signal downDone calls) :
    s.held.length ≤ job.burst := by
  obtain ⟨point, tally⟩ := s
  cases point with
  | readSignal | readNeighbour => exact Nat.zero_le _
  | pull held =>
    obtain ⟨-, -, -, hlt⟩ := hs
    exact hlt.le
  | push burst isLast =>
    obtain ⟨-, -, -, -, hle⟩ := hs
    exact (Nat.le_add_left _ _).trans hle

/-- A source that breaks off stands as it stood. -/
theorem eq_of_step_broken (h : (s.step job o calls).2.2 = .broken last) : last = s := by
  obtain ⟨point, tally⟩ := s
  cases point with
  | readSignal =>
    simp only [step] at h
    split at h <;> cases h
  | readNeighbour =>
    simp only [step, gather] at h
    repeat' split at h
    all_goals cases h
  | pull held =>
    simp only [step] at h
    split at h
    · unfold gather at h
      repeat' split at h
      all_goals cases h
    · unfold close at h
      split at h <;> cases h
    · cases h
      rfl
  | push burst isLast =>
    simp only [step, afterPush] at h
    repeat' split at h
    all_goals cases h

theorem Sound.length_held_step_le (hs : s.Sound job o.signal o.neighbourDone calls) (hburst : 0 < job.burst)
    (hr : o.ring.AtRest) : (s.step job o calls).2.2.last.held.length ≤ job.burst := by
  have hmeets := (hs.step hburst hr).meets
  cases hnext : (s.step job o calls).2.2 with
  | loop s' =>
    rw [hnext] at hmeets
    exact hmeets.length_held_le
  | exit last reason =>
    rw [hnext] at hmeets
    obtain ⟨-, -, hle, -⟩ := hmeets
    exact hle
  | broken last =>
    rw [eq_of_step_broken hnext]
    exact hs.length_held_le

end Intake

namespace Extension

variable {job : Job} {inbound : Ring Descriptor} {upDone : Bool} {o : Outlet UInt64} {s : Extension}

theorem Sound.length_held_le {signal downDone : Bool} (hs : s.Sound job signal upDone downDone) :
    s.held.length ≤ job.burst := by
  obtain ⟨point, unwrapper, tally⟩ := s
  cases point with
  | readSignal | readDownstream | pop | readUpstream | recheck => exact Nat.zero_le _
  | push burst =>
    obtain ⟨-, -, hle⟩ := hs
    exact (Nat.le_add_left _ _).trans hle

theorem Sound.length_held_step_le (hs : s.Sound job o.signal upDone o.neighbourDone) (hin : inbound.AtRest)
    (hout : o.ring.AtRest) : (s.step job inbound upDone o).2.2.last.held.length ≤ job.burst := by
  have hmeets := (hs.step hin hout).meets
  cases hnext : (s.step job inbound upDone o).2.2 with
  | loop s' =>
    rw [hnext] at hmeets
    exact hmeets.length_held_le
  | exit last reason =>
    rw [hnext] at hmeets
    obtain ⟨-, hle, -⟩ := hmeets
    exact hle
  | broken last =>
    -- Nothing breaks the extender off.
    have htells := step_tells job inbound upDone o s
    rw [hnext] at htells
    exact htells.elim

end Extension

namespace Delivery

variable {job : Job} {outbound : Ring UInt64} {signal upDone : Bool} {delivered : Array UInt64} {s last : Delivery}

theorem Sound.length_held_le {n : Nat} (hs : s.Sound job upDone n) : s.held.length ≤ job.burst := by
  obtain ⟨point, count⟩ := s
  cases point with
  | readSignal | pop | readUpstream | recheck => exact Nat.zero_le _
  | deliver left size =>
    obtain ⟨-, hle, hsize, -⟩ := hs
    exact hle.trans hsize

/-- A sink that breaks off has delivered one of the values that it held. -/
theorem length_held_of_step_broken (h : (s.step job outbound signal upDone delivered).2.2 = .broken last) :
    last.held.length < s.held.length := by
  obtain ⟨point, count⟩ := s
  cases point with
  | readSignal =>
    simp only [step, want] at h
    repeat' split at h
    all_goals cases h
  | pop | readUpstream => cases h
  | recheck =>
    simp only [step] at h
    split at h <;> cases h
  | deliver left size =>
    cases left with
    | nil => cases h
    | cons value left =>
      simp only [step] at h
      split at h
      · cases h
        exact Nat.lt_succ_self _
      · cases h

theorem Sound.length_held_step_le (hs : s.Sound job upDone delivered.size) (hr : outbound.AtRest)
    (signal : Bool) :
    (s.step job outbound signal upDone delivered).2.2.last.held.length ≤ job.burst := by
  have hmeets := (hs.step hr signal).meets
  cases hnext : (s.step job outbound signal upDone delivered).2.2 with
  | loop s' =>
    rw [hnext] at hmeets
    exact hmeets.length_held_le
  | exit last reason =>
    rw [hnext] at hmeets
    obtain ⟨-, hnil, -⟩ := hmeets
    show last.held.length ≤ job.burst
    rw [hnil]
    exact Nat.zero_le _
  | broken last => exact (length_held_of_step_broken hnext).le.trans hs.length_held_le

end Delivery

namespace World

variable {job : Job} {w begun : World}

/-- A run whose stages hold no more than a burst each, or gave up no more. -/
structure WithinBurst (job : Job) (w : World) : Prop where
  source : (w.source.held Intake.held).length ≤ job.burst
  extender : (w.extender.held Extension.held).length ≤ job.burst
  sink : (w.sink.held Delivery.held).length ≤ job.burst

theorem start_withinBurst (job : Job) (signal : Bool) (states : PerStage StageState) (inbound : Ring Descriptor)
    (outbound : Ring UInt64) : (World.start signal states inbound outbound).WithinBurst job :=
  ⟨Nat.zero_le _, Nat.zero_le _, Nat.zero_le _⟩

theorem WithinBurst.stepSource (hburst : 0 < job.burst) (h : w.WithinBurst job) (hs : w.Sound job) :
    (w.stepSource job).WithinBurst job := by
  rcases w.stepSource_cases job with ⟨s, hpos, heq⟩ | ⟨-, heq⟩
  · have hle := (hs.source.of_loop hpos).length_held_step_le (o := w.sourceOutlet) hburst hs.inbound
    rw [heq]
    refine ⟨?_, h.extender, h.sink⟩
    rw [held_eq Intake.held (Next.last?_position _)]
    exact hle
  · have hheld : (w.source.advance job .source Intake.first w.signal).1.held Intake.held =
        w.source.held Intake.held := Worker.held_advance rfl
    rw [heq]
    refine ⟨?_, h.extender, h.sink⟩
    rw [hheld]
    exact h.source

theorem WithinBurst.stepExtender (h : w.WithinBurst job) (hs : w.Sound job) : (w.stepExtender job).WithinBurst job := by
  rcases w.stepExtender_cases job with ⟨s, hpos, heq⟩ | ⟨-, heq⟩
  · have hle := (hs.extender.of_loop hpos).length_held_step_le (o := w.extenderOutlet) hs.inbound hs.outbound
    rw [heq]
    refine ⟨h.source, ?_, h.sink⟩
    rw [held_eq Extension.held (Next.last?_position _)]
    exact hle
  · have hheld : (w.extender.advance job .extender (Extension.first job.start) w.signal).1.held Extension.held =
        w.extender.held Extension.held := Worker.held_advance rfl
    rw [heq]
    refine ⟨h.source, ?_, h.sink⟩
    rw [hheld]
    exact h.extender

theorem WithinBurst.stepSink (h : w.WithinBurst job) (hs : w.Sound job) : (w.stepSink job).WithinBurst job := by
  rcases w.stepSink_cases job with ⟨s, hpos, heq⟩ | ⟨-, heq⟩
  · have hle := (hs.sink.of_loop hpos).length_held_step_le hs.outbound w.signal
    rw [heq]
    refine ⟨h.source, h.extender, ?_⟩
    rw [held_eq Delivery.held (Next.last?_position _)]
    exact hle
  · have hheld : (w.sink.advance job .sink Delivery.first w.signal).1.held Delivery.held =
        w.sink.held Delivery.held := Worker.held_advance rfl
    rw [heq]
    refine ⟨h.source, h.extender, ?_⟩
    rw [hheld]
    exact h.sink

theorem Reachable.withinBurst (hreach : Reachable job begun w) (hburst : 0 < job.burst) (hbegun : begun.Sound job)
    (hwithinBurst : begun.WithinBurst job) : w.WithinBurst job := by
  induction hreach with
  | begun => exact hwithinBurst
  | step stage hreach ih =>
    have hsound := hreach.sound hburst hbegun
    cases stage with
    | source => exact ih.stepSource hburst hsound
    | extender => exact ih.stepExtender hsound
    | sink => exact ih.stepSink hsound
  | raise _ ih => exact ⟨ih.source, ih.extender, ih.sink⟩

/-- Every event that was pulled is delivered or on its way. -/
theorem Sound.length_pulled (h : w.Sound job) :
    (w.pulled job).length = w.delivered.size + w.toDeliver.length + w.toExtend.length := by
  have hvalues := congrArg List.length h.inOrder.values_pulled
  simpa [Nat.add_assoc] using hvalues

variable {inbound outbound : Capacity}

/-- What is on its way fits the rings and the hands of the stages. -/
theorem WithinBurst.length_pulled_le (h : w.WithinBurst job) (hs : w.Sound job) (hc : w.Counted job inbound outbound) :
    (w.pulled job).length ≤ w.delivered.size + inbound.slots + outbound.slots +
      ((w.sink.held Delivery.held).length + 2 * job.burst) := by
  have hpulled := hs.length_pulled
  have hinbound := hs.inbound.length_toList_le
  have houtbound := hs.outbound.length_toList_le
  have hsource := h.source
  have hextender := h.extender
  rw [hc.inbound] at hinbound
  rw [hc.outbound] at houtbound
  simp only [toDeliver, toExtend, List.length_append] at hpulled
  omega

end World

namespace Pipeline

variable {p : Pipeline} {m : Machine} {load : Workload} {begun w : World}

theorem reachable_withinBurst (hlaunch : p.launch m = .ok begun) (hreach : World.Reachable (p.job m load) begun w) :
    w.WithinBurst (p.job m load) := by
  refine hreach.withinBurst p.config.burst_pos (launch_sound hlaunch) ?_
  rw [launch_eq hlaunch]
  exact World.start_withinBurst _ _ _ _ _

/-- In every state of a run, no more events were pulled than values were delivered and than both rings and three
bursts have room for. When the run has returned its report the sink holds nothing, so a burst less was
received. If the sink stopped because it had delivered what was expected, that is a bound in terms of the
number expected. -/
theorem source_ahead_le (hlaunch : p.launch m = .ok begun) (hreach : World.Reachable (p.job m load) begun w) :
    let room := p.config.inbound.slots + p.config.outbound.slots
    (w.pulled (p.job m load)).length ≤ w.delivered.size + room + 3 * p.config.burst ∧
      ∀ report, w.outcome? (p.job m load) = some (.ok report) →
        report.stages.source.received ≤ report.delivered + room + 2 * p.config.burst ∧
          (report.stages.sink.exit = .expectedReached →
            ∃ e, p.config.expected = some e ∧
              report.stages.source.received ≤ e.toNat + room + 2 * p.config.burst) := by
  intro room
  have hsound := reachable_sound hlaunch hreach
  have hwithinBurst := reachable_withinBurst hlaunch hreach
  have hle := hwithinBurst.length_pulled_le hsound (reachable_counted hlaunch hreach)
  have hburst : (p.job m load).burst = p.config.burst := rfl
  rw [hburst] at hle
  constructor
  · have hsink := hwithinBurst.sink
    rw [hburst] at hsink
    omega
  · intro report houtcome
    obtain ⟨a, x, b, y, c, z, hr, rfl⟩ := World.returned_of_outcome? houtcome
    obtain ⟨hreceived, -⟩ := hr.source_left hsound
    obtain ⟨hcount, hnil, hexit⟩ := hr.sink_left hsound
    have hbound : a.tally.received ≤ c.count + room + 2 * p.config.burst := by
      have hpulled : a.tally.received = (w.pulled (p.job m load)).length := hreceived
      rw [hr.sink_held, hnil, List.length_nil, ← hcount, ← hpulled] at hle
      omega
    refine ⟨hbound, ?_⟩
    rintro rfl
    obtain ⟨e, he, htoNat⟩ := Option.map_eq_some_iff.1 hexit
    refine ⟨e, he, ?_⟩
    rw [htoNat]
    exact hbound

/-- Both bounds are reached. The source has pulled six events before the first value is delivered: one is with each
stage, and the rings hold two and one. The sink then delivers the one value that is expected, and the report
says that six were received. -/
theorem full_pipeline_ahead :
    let job := (narrow (some 1)).job .willing endless
    let begun := World.start false ⟨.stopped, .stopped, .stopped⟩ (.empty ⟨1, by decide⟩)
      (.empty ⟨0, by decide⟩)
    let full := begun.applyAll job
      ((List.replicate 12 StageKind.source ++ List.replicate 8 StageKind.extender ++
        List.replicate 4 StageKind.sink ++ List.replicate 16 StageKind.source ++
        List.replicate 12 StageKind.extender ++ List.replicate 12 StageKind.source).map .step)
    let w := full.applyAll job
      ((List.replicate 6 StageKind.sink ++ List.replicate 6 StageKind.extender ++
        List.replicate 6 StageKind.source).map .step)
    let report : RunReport :=
      { stages := ⟨⟨.source, .stopped, .downstreamStopped, 6, 5, 1⟩,
          ⟨.extender, .stopped, .downstreamStopped, 3, 2, 1⟩, ⟨.sink, .stopped, .expectedReached, 1, 1, 0⟩⟩
        inboundResident := 2
        outboundResident := 1
        expected := some 1
        shutdownRequested := false }
    full.delivered.size = 0 ∧ (full.pulled job).length = 0 + (2 + 1) + 3 * 1 ∧
      w.outcome? job = some (.ok report) ∧ report.stages.source.received = 1 + (2 + 1) + 2 * 1 := by
  intro job begun full w report
  have hfull : World.Reachable job begun full := .steps .begun _
  have hw : World.Reachable job begun w := .steps hfull _
  have hnone : full.delivered.size = 0 := by decide +kernel
  have houtcome : w.outcome? job = some (.ok report) := by decide +kernel
  obtain ⟨hahead, -⟩ := source_ahead_le (p := narrow (some 1)) (m := .willing) rfl hfull
  obtain ⟨-, hreport⟩ := source_ahead_le (p := narrow (some 1)) (m := .willing) rfl hw
  obtain ⟨e, he, hreceived⟩ := (hreport report houtcome).2 rfl
  obtain rfl : 1 = e := Option.some.inj he
  have hpulled : 0 + (2 + 1) + 3 * 1 ≤ (full.pulled job).length := by decide +kernel
  rw [hnone] at hahead
  exact ⟨hnone, le_antisymm hahead hpulled, houtcome, le_antisymm hreceived (by decide)⟩

end Pipeline

end TimestampRelay
