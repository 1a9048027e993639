/-
The books of a run. Each stage counts for itself and the rings count in their cursors, but whenever all
stages have returned the counts agree: what one stage handed on was taken in by the next or is left in
the ring between them, and what a stage took in it handed on or dropped.
-/
import TimestampRelay.Proofs.Run.Outcome

namespace TimestampRelay

/-! ## Reports of single stages -/

/-- A stage's report with exact counts: what it received it handed on or dropped. It dropped no more than a
burst, and nothing unless it was told to stop or its neighbour had stopped; and if it was told to stop,
the signal is raised. -/
structure StageReport.Exact (r : StageReport) (burst : Nat) (signal : Bool) : Prop where
  forwarded_le : r.forwarded ≤ r.received
  received_eq : r.received = r.forwarded + r.dropped
  dropped_le : r.dropped ≤ burst
  cause : 0 < r.dropped → r.exit = .shutdown ∨ r.exit = .downstreamStopped
  alarm : r.exit = .shutdown → signal = true

/-- What a stage has not handed on it drops. -/
theorem Tally.dropped_report {t : Tally} {held : Nat} (hcount : t.forwarded + held = t.received) (kind : StageKind)
    (exit : ExitReason) : (t.report kind exit).dropped = held := by
  show t.received - t.forwarded = held
  omega

/-- A stage that is left with what it has not handed on drops it. -/
theorem Tally.report_exact {t : Tally} {kind : StageKind} {exit : ExitReason} {held burst : Nat} {signal : Bool}
    (hcount : t.forwarded + held = t.received) (hle : held ≤ burst)
    (hcause : 0 < held → exit = .shutdown ∨ exit = .downstreamStopped)
    (halarm : exit = .shutdown → signal = true) : (t.report kind exit).Exact burst signal := by
  have hdropped : (t.report kind exit).dropped = held := Tally.dropped_report hcount kind exit
  constructor
  · show t.forwarded ≤ t.received
    omega
  · rw [hdropped]
    exact hcount.symm
  · rw [hdropped]
    exact hle
  · rw [hdropped]
    exact hcause
  · exact halarm

/-- A source that left its loop with something in hand was told to, or its neighbour had stopped. -/
theorem Intake.Left.cause {job : Job} {signal downDone : Bool} {calls : Nat} {last : Intake} {exit : ExitReason}
    (h : last.Left job signal downDone calls exit) (hpos : 0 < last.held.length) :
    exit = .shutdown ∨ exit = .downstreamStopped := by
  obtain ⟨-, -, -, hexit⟩ := h
  cases exit with
  | shutdown => exact .inl rfl
  | downstreamStopped => exact .inr rfl
  | inputExhausted =>
    rw [hexit.2] at hpos
    exact absurd hpos (Nat.lt_irrefl 0)
  | expectedReached => exact hexit.elim

theorem Extension.Left.cause {job : Job} {signal upDone downDone : Bool} {last : Extension} {exit : ExitReason}
    (h : last.Left job signal upDone downDone exit) (hpos : 0 < last.held.length) :
    exit = .shutdown ∨ exit = .downstreamStopped := by
  obtain ⟨-, -, hexit⟩ := h
  cases exit with
  | shutdown => exact .inl rfl
  | downstreamStopped => exact .inr rfl
  | inputExhausted =>
    rw [hexit.2] at hpos
    exact absurd hpos (Nat.lt_irrefl 0)
  | expectedReached => exact hexit.elim

namespace World

variable {job : Job} {w : World} {a : Intake} {b : Extension} {c : Delivery} {x y z : ExitReason}

/-! ## What the extender has taken in -/

/-- Descriptors that the extender counts as received. -/
def extended (w : World) : Nat :=
  match w.extender.position.last? with
  | some last => last.tally.received
  | none => 0

theorem extended_eq {last : Extension} (h : w.extender.position.last? = some last) :
    w.extended = last.tally.received := by
  unfold extended
  rw [h]

/-- The rings have the capacities that they were made with, and every event pulled was taken in by the
extender or is on its way to it. -/
structure Counted (job : Job) (inbound outbound : Capacity) (w : World) : Prop where
  inbound : w.inbound.capacity = inbound
  outbound : w.outbound.capacity = outbound
  pulled : w.extended + w.toExtend.length = (w.pulled job).length

variable {inbound outbound : Capacity}

theorem Counted.stepSource (hburst : 0 < job.burst) (h : w.Counted job inbound outbound) (hs : w.Sound job) :
    (w.stepSource job).Counted job inbound outbound := by
  rcases w.stepSource_cases job with ⟨s, hpos, heq⟩ | ⟨-, heq⟩
  · have hstep := Intake.Sound.step (o := w.sourceOutlet) (hs.source.of_loop hpos) hburst hs.inbound
    obtain ⟨more, hanswered, hitems⟩ := hstep.items
    have hlast := (s.step job w.sourceOutlet w.calls).2.2.last?_position
    have hheld : w.source.held Intake.held = s.held := held_eq _ (by rw [hpos]; rfl)
    have hpulled : w.extended + (w.inbound.toList ++ s.held).length = (job.workload.answered w.calls).length :=
      hheld ▸ h.pulled
    rw [heq]
    -- The events pulled now are on their way.
    refine ⟨hstep.capacity.trans h.inbound, h.outbound, ?_⟩
    show w.extended + (_ ++ Worker.held Intake.held _).length = (job.workload.answered _).length
    rw [held_eq Intake.held hlast, hitems, hanswered]
    show w.extended + (w.inbound.toList ++ s.held ++ more).length = (job.workload.answered w.calls ++ more).length
    simp only [List.length_append] at hpulled ⊢
    omega
  · have hheld : (w.source.advance job .source Intake.first w.signal).1.held Intake.held =
        w.source.held Intake.held := Worker.held_advance rfl
    rw [heq]
    refine ⟨h.inbound, h.outbound, ?_⟩
    show w.extended + (w.inbound.toList ++ Worker.held Intake.held _).length = (w.pulled job).length
    rw [hheld]
    exact h.pulled

theorem extended_advance (job : Job) (w : World) :
    extended
        { w with
          extender := (w.extender.advance job .extender (Extension.first job.start) w.signal).1
          signal := (w.extender.advance job .extender (Extension.first job.start) w.signal).2 } =
      w.extended := by
  unfold extended
  rcases Worker.last?_advance job .extender (Extension.first job.start) w.extender w.signal with
    heq | ⟨hnone, heq⟩
  · simp only [heq]
  · simp only [heq, hnone]
    rfl

theorem Counted.stepExtender (h : w.Counted job inbound outbound) (hs : w.Sound job) :
    (w.stepExtender job).Counted job inbound outbound := by
  rcases w.stepExtender_cases job with ⟨s, hpos, heq⟩ | ⟨-, heq⟩
  · have hstep := Extension.Sound.step (o := w.extenderOutlet) (hs.extender.of_loop hpos) hs.inbound hs.outbound
    obtain ⟨popped, hpopped, -, hreceived, -⟩ := hstep.items
    have hlast := (s.step job w.inbound w.source.done w.extenderOutlet).2.2.last?_position
    have hextended : w.extended = s.tally.received := extended_eq (by rw [hpos]; rfl)
    have hpulled : w.extended + (w.inbound.toList ++ w.source.held Intake.held).length = (w.pulled job).length :=
      h.pulled
    rw [heq]
    -- What was popped is received, and no longer on its way.
    refine ⟨hstep.inbound_capacity.trans h.inbound, hstep.outbound_capacity.trans h.outbound, ?_⟩
    refine (congrArg (· + _) ((extended_eq hlast).trans hreceived)).trans ?_
    show s.tally.received + popped.length + (_ ++ w.source.held Intake.held).length = (w.pulled job).length
    rw [← hpulled, hextended, hpopped, Nat.add_assoc, ← List.length_append, ← List.append_assoc]
  · have hextended := extended_advance job w
    rw [heq]
    exact ⟨h.inbound, h.outbound, (congrArg (· + w.toExtend.length) hextended).trans h.pulled⟩

theorem Counted.stepSink (h : w.Counted job inbound outbound) (hs : w.Sound job) :
    (w.stepSink job).Counted job inbound outbound := by
  rcases w.stepSink_cases job with ⟨s, hpos, heq⟩ | ⟨-, heq⟩
  · have hstep := Delivery.Sound.step (hs.sink.of_loop hpos) hs.outbound w.signal
    rw [heq]
    exact ⟨h.inbound, hstep.capacity.trans h.outbound, h.pulled⟩
  · rw [heq]
    exact ⟨h.inbound, h.outbound, h.pulled⟩

theorem Counted.start (job : Job) (signal : Bool) (states : PerStage StageState) {inboundRing : Ring Descriptor}
    {outboundRing : Ring UInt64} (hin : inboundRing.capacity = inbound) (hout : outboundRing.capacity = outbound)
    (hnil : inboundRing.toList = []) :
    (World.start signal states inboundRing outboundRing).Counted job inbound outbound := by
  refine ⟨hin, hout, ?_⟩
  show 0 + (inboundRing.toList ++ []).length = 0
  rw [hnil]
  rfl

theorem Reachable.counted {begun : World} (hreach : Reachable job begun w) (hburst : 0 < job.burst)
    (hbegun : begun.Sound job) (hcounted : begun.Counted job inbound outbound) :
    w.Counted job inbound outbound := by
  induction hreach with
  | begun => exact hcounted
  | step stage hreach ih =>
    have hsound := hreach.sound hburst hbegun
    cases stage with
    | source => exact ih.stepSource hburst hsound
    | extender => exact ih.stepExtender hsound
    | sink => exact ih.stepSink hsound
  | raise _ ih => exact ⟨ih.inbound, ih.outbound, ih.pulled⟩

/-! ## The report -/

/-- A stage that left a report has returned. -/
theorem returned_of_ended? {β : Type} {tally : β → Tally} {kind : StageKind} {worker : Worker β}
    {report : StageReport} (h : result?.ended? tally kind worker = some (.ok report)) :
    ∃ last exit, worker.position = .ended (.returned last exit) ∧ (tally last).report kind exit = report := by
  unfold result?.ended? at h
  split at h
  · rename_i ending hpos
    cases ending with
    | returned last exit => exact ⟨last, exit, hpos, Except.ok.inj (Option.some.inj h)⟩
    | broken | unpinned => cases h
  · cases h

/-- A run that leaves a report is one in which all stages have returned. -/
theorem returned_of_outcome? {report : RunReport} (h : w.outcome? job = some (.ok report)) :
    ∃ a x b y c z, w.Returned a x b y c z ∧ reportOf job w a x b y c z = report := by
  unfold outcome? at h
  rcases hsource : w.result? .source with _ | (_ | source) <;> rw [hsource] at h
  · cases h
  · rcases hextender : w.result? .extender with _ | extender <;> rw [hextender] at h
    · cases h
    · rcases hsink : w.result? .sink with _ | sink <;> rw [hsink] at h <;> cases h
  rcases hextender : w.result? .extender with _ | (_ | extender) <;> rw [hextender] at h
  · cases h
  · rcases hsink : w.result? .sink with _ | sink <;> rw [hsink] at h <;> cases h
  rcases hsink : w.result? .sink with _ | (_ | sink) <;> rw [hsink] at h
  · cases h
  · cases h
  obtain ⟨a, x, ha, rfl⟩ := returned_of_ended? hsource
  obtain ⟨b, y, hb, rfl⟩ := returned_of_ended? hextender
  obtain ⟨c, z, hc, rfl⟩ := returned_of_ended? hsink
  exact ⟨a, x, b, y, c, z, ⟨ha, hb, hc⟩, Except.ok.inj (Option.some.inj h)⟩

/-! ## What the counts of the stages amount to -/

namespace Returned

/-- What a stage handed on was taken in by the next stage or is left in the ring between them. -/
theorem handed_on (hr : w.Returned a x b y c z) (hs : w.Sound job) (hc : w.Counted job inbound outbound) :
    a.tally.forwarded = b.tally.received + w.inbound.len ∧ b.tally.forwarded = c.count + w.outbound.len := by
  obtain ⟨hpulled, hsource, -, -⟩ := hr.source_left hs
  obtain ⟨hextender, -, -⟩ := hr.extender_left hs
  obtain ⟨hcount, hsink, -⟩ := hr.sink_left hs
  have hextended : w.extended = b.tally.received := extended_eq (by rw [hr.extender]; rfl)
  have hcounted := hc.pulled
  have hvalues := congrArg List.length hs.inOrder.values_pulled
  have hanswered : (w.pulled job).length = (job.workload.answered w.calls).length := rfl
  rw [hs.inbound.len_eq, hs.outbound.len_eq]
  simp only [Unwrapper.length_values, List.length_map, List.length_append, toExtend, toDeliver, hr.source_held,
    hr.extender_held, hr.sink_held, hsink, List.length_nil, Array.length_toList] at hvalues hcounted
  omega

/-- Each stage's report is exact: a stage is left with what it gave up, and it gave up nothing unless it was
told to stop or its neighbour had stopped. -/
theorem stage_exact (hr : w.Returned a x b y c z) (hs : w.Sound job) (stage : StageKind) :
    ((reportOf job w a x b y c z).stages.get stage).Exact job.burst w.signal := by
  cases stage with
  | source =>
    have hleft := hr.source_left hs
    obtain ⟨-, hcount, hle, hexit⟩ := id hleft
    refine Tally.report_exact hcount hle hleft.cause ?_
    rintro rfl
    exact hexit.2
  | extender =>
    have hleft := hr.extender_left hs
    obtain ⟨hcount, hle, hexit⟩ := id hleft
    refine Tally.report_exact hcount hle hleft.cause ?_
    rintro rfl
    exact hexit
  | sink =>
    obtain ⟨-, -, hexit⟩ := hr.sink_left hs
    have hcount : c.tally.forwarded + 0 = c.tally.received := rfl
    refine Tally.report_exact hcount (Nat.zero_le _) (fun hpos => absurd hpos (Nat.lt_irrefl 0)) ?_
    rintro rfl
    exact hexit

theorem sink_dropped (job : Job) (w : World) (a : Intake) (x : ExitReason) (b : Extension) (y : ExitReason)
    (c : Delivery) (z : ExitReason) : (reportOf job w a x b y c z).stages.sink.dropped = 0 :=
  Nat.sub_self c.count

end Returned

end World

namespace Pipeline

variable {p : Pipeline} {m : Machine} {load : Workload} {begun w : World}

theorem reachable_counted (hlaunch : p.launch m = .ok begun)
    (hreach : World.Reachable (p.job m load) begun w) :
    w.Counted (p.job m load) p.config.inbound p.config.outbound := by
  obtain ⟨-, hnil, hin⟩ := p.freshRing_spec (α := Descriptor) p.config.inbound
  obtain ⟨-, -, hout⟩ := p.freshRing_spec (α := UInt64) p.config.outbound
  refine hreach.counted p.config.burst_pos (launch_sound hlaunch) ?_
  rw [launch_eq hlaunch]
  exact .start _ _ _ hin hout hnil

/-- The report of a run, however its stages interleaved and whenever the signal was raised, if it was. The
books balance, and each stage's report is exact. What the source received is what it pulled: it was
delivered, dropped, or is left in the rings, and as many items are left there as are reported. The sink
drops nothing. -/
theorem report_balances (hlaunch : p.launch m = .ok begun)
    (hreach : World.Reachable (p.job m load) begun w) {report : RunReport}
    (houtcome : w.outcome? (p.job m load) = some (.ok report)) :
    report.balanced = true ∧
      (∀ stage, (report.stages.get stage).Exact p.config.burst report.shutdownRequested) ∧
      report.stages.source.received =
        report.delivered + report.dropped + report.inboundResident + report.outboundResident ∧
      report.stages.source.received = (w.pulled (p.job m load)).length ∧
      report.delivered = w.delivered.size ∧
      report.inboundResident = w.inbound.toList.length ∧ report.inboundResident ≤ p.config.inbound.slots ∧
      report.outboundResident = w.outbound.toList.length ∧ report.outboundResident ≤ p.config.outbound.slots ∧
      report.stages.sink.dropped = 0 := by
  have hsound := reachable_sound hlaunch hreach
  have hcounted := reachable_counted hlaunch hreach
  obtain ⟨a, x, b, y, c, z, hr, rfl⟩ := World.returned_of_outcome? houtcome
  have hexact := hr.stage_exact hsound
  obtain ⟨hinbound, houtbound⟩ := hr.handed_on hsound hcounted
  obtain ⟨hpulled, -⟩ := hr.source_left hsound
  obtain ⟨hdelivered, -⟩ := hr.sink_left hsound
  have hinboundLe := hsound.inbound.length_toList_le
  have houtboundLe := hsound.outbound.length_toList_le
  rw [hcounted.inbound, ← hsound.inbound.len_eq] at hinboundLe
  rw [hcounted.outbound, ← hsound.outbound.len_eq] at houtboundLe
  refine ⟨?_, hexact, ?_, hpulled, hdelivered, hsound.inbound.len_eq, hinboundLe, hsound.outbound.len_eq,
    houtboundLe, World.Returned.sink_dropped _ w a x b y c z⟩
  · simp only [RunReport.balanced, Bool.and_eq_true, beq_iff_eq]
    exact ⟨⟨hinbound, (hexact .extender).received_eq⟩, houtbound⟩
  · have hsource := (hexact .source).received_eq
    have hextender := (hexact .extender).received_eq
    have hsink := (hexact .sink).received_eq
    simp only [World.reportOf, PerStage.get, Tally.report, Delivery.tally, RunReport.delivered,
      RunReport.dropped] at hsource hextender hsink ⊢
    omega

/-- A feed without end. -/
def endless : Workload where
  feed := fun call => .event ⟨0, 0, .ofNat call⟩
  breaksAt := fun _ => false

/-- The signal is raised when both rings are full and nobody drains: the source and the extender drop what they
hold, and three items are left in the rings. -/
theorem stopped_run_balances :
    let begun := World.start false ⟨.stopped, .stopped, .stopped⟩ (.empty ⟨1, by decide⟩)
      (.empty ⟨0, by decide⟩)
    let w := ((begun.applyAll ((narrow none).job .willing endless)
        ((List.replicate 12 StageKind.source ++ List.replicate 8 StageKind.extender ++
          List.replicate 5 StageKind.sink ++ List.replicate 12 StageKind.source ++
          List.replicate 12 StageKind.extender ++ List.replicate 12 StageKind.source).map .step)).apply
        ((narrow none).job .willing endless) .raiseSignal).applyAll ((narrow none).job .willing endless)
      ((List.replicate 6 [StageKind.source, .extender, .sink]).flatten.map .step)
    let report : RunReport :=
      { stages := ⟨⟨.source, .stopped, .shutdown, 6, 5, 1⟩, ⟨.extender, .stopped, .shutdown, 3, 2, 1⟩,
          ⟨.sink, .stopped, .shutdown, 1, 1, 0⟩⟩
        inboundResident := 2
        outboundResident := 1
        expected := none
        shutdownRequested := true }
    w.outcome? ((narrow none).job .willing endless) = some (.ok report) ∧ report.balanced = true ∧
      w.inbound.toList.length = 2 ∧ w.outbound.toList.length = 1 := by
  intro begun w report
  have hreach : World.Reachable ((narrow none).job .willing endless) begun w := .steps (.raise (.steps .begun _)) _
  have houtcome : w.outcome? ((narrow none).job .willing endless) = some (.ok report) := by decide +kernel
  obtain ⟨hbalanced, -, -, -, -, hinbound, -, houtbound, -⟩ :=
    report_balances (p := narrow none) (m := .willing) rfl hreach houtcome
  exact ⟨houtcome, hbalanced, hinbound.symm, houtbound.symm⟩

end Pipeline

end TimestampRelay
