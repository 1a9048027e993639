/-
What the report of a run tells of the run. The reasons for which its stages stopped fit each other: a stage
that ran out of input missed nothing, and a stage that gave up was left by a neighbour that had a reason of
its own. And a run that the report calls complete has delivered all it was asked to, even if it was stopped.
-/
import TimestampRelay.Proofs.Run.Books

namespace TimestampRelay

namespace World.Returned

variable {job : Job} {w : World} {a : Intake} {b : Extension} {c : Delivery} {x y z : ExitReason}
  {inbound outbound : Capacity}

/-- A ring that holds nothing leaves nothing between two stages: the second took in all that the first handed
on. -/
theorem received_all (hr : w.Returned a x b y c z) (hs : w.Sound job) (hc : w.Counted job inbound outbound) :
    (w.inbound.toList = [] → b.tally.received = a.tally.forwarded) ∧
      (w.outbound.toList = [] → c.count = b.tally.forwarded) := by
  obtain ⟨hin, hout⟩ := hr.handed_on hs hc
  rw [hs.inbound.len_eq] at hin
  rw [hs.outbound.len_eq] at hout
  constructor
  · intro hnil
    simp [hin, hnil]
  · intro hnil
    simp [hout, hnil]

end World.Returned

namespace Pipeline

variable {p : Pipeline} {m : Machine} {load : Workload} {begun w : World}

/-! ## Why the stages stopped -/

/-- The reasons for which the stages of a run stopped, whenever the signal was raised, if it was. Behind a stage
that ran out of input there is an empty ring, and it took in all that was handed on to it: its upstream
neighbour had run out of input or was told to stop. A stage that gave up because its downstream neighbour had
stopped had one that was told to stop, or gave up itself, or had delivered all that was expected. And then
exactly that was delivered. -/
theorem exits_fit (hlaunch : p.launch m = .ok begun) (hreach : World.Reachable (p.job m load) begun w)
    {report : RunReport} (houtcome : w.outcome? (p.job m load) = some (.ok report)) :
    (report.stages.extender.exit = .inputExhausted →
      w.inbound.toList = [] ∧ report.inboundResident = 0 ∧
        report.stages.extender.received = report.stages.source.forwarded ∧
        (report.stages.source.exit = .inputExhausted ∨ report.stages.source.exit = .shutdown)) ∧
    (report.stages.sink.exit = .inputExhausted →
      w.outbound.toList = [] ∧ report.outboundResident = 0 ∧
        report.stages.sink.received = report.stages.extender.forwarded ∧
        (report.stages.extender.exit = .inputExhausted ∨ report.stages.extender.exit = .shutdown)) ∧
    (report.stages.source.exit = .downstreamStopped →
      report.stages.extender.exit = .shutdown ∨ report.stages.extender.exit = .downstreamStopped) ∧
    (report.stages.extender.exit = .downstreamStopped →
      report.stages.sink.exit = .shutdown ∨ report.stages.sink.exit = .expectedReached) ∧
    (report.stages.sink.exit = .expectedReached →
      ∃ e, p.config.expected = some e ∧ report.delivered = e.toNat ∧ w.delivered.size = e.toNat) := by
  have hsound := reachable_sound hlaunch hreach
  have hcauses := reachable_causes hlaunch hreach
  obtain ⟨a, x, b, y, c, z, hr, rfl⟩ := World.returned_of_outcome? houtcome
  obtain ⟨hinbound, houtbound⟩ := hr.received_all hsound (reachable_counted hlaunch hreach)
  have hsource := hr.source_cause hsound hcauses
  have hextender := hr.extender_cause hsound hcauses
  have hsink := hr.sink_cause hsound hcauses
  simp only [World.reportOf, Tally.report, Delivery.tally, RunReport.delivered]
  refine ⟨?_, ?_, ?_, ?_, ?_⟩
  · rintro rfl
    rcases hextender with ⟨-, hnil⟩ | ⟨hne, -⟩ | ⟨hne, -⟩
    · refine ⟨hnil, by rw [hsound.inbound.len_eq, hnil]; rfl, hinbound hnil, ?_⟩
      rcases hsource with hx | ⟨hx, -⟩ | ⟨-, hne⟩
      · exact .inl hx
      · exact .inr hx
      · exact absurd rfl hne
    · cases hne
    · cases hne
  · rintro rfl
    rcases hsink with ⟨-, hnil⟩ | ⟨hne, -⟩ | ⟨hne, -⟩
    · refine ⟨hnil, by rw [hsound.outbound.len_eq, hnil]; rfl, houtbound hnil, ?_⟩
      rcases hextender with ⟨hy, -⟩ | ⟨hy, -⟩ | ⟨-, hne⟩
      · exact .inl hy
      · exact .inr hy
      · exact absurd rfl hne
    · cases hne
    · cases hne
  · rintro rfl
    rcases hsource with hx | ⟨hx, -⟩ | ⟨-, hne⟩
    · cases hx
    · cases hx
    · rcases hextender with ⟨hy, -⟩ | ⟨hy, -⟩ | ⟨hy, -⟩
      · exact absurd hy hne
      · exact .inl hy
      · exact .inr hy
  · rintro rfl
    rcases hextender with ⟨hy, -⟩ | ⟨hy, -⟩ | ⟨-, hne⟩
    · cases hy
    · cases hy
    · rcases hsink with ⟨hz, -⟩ | ⟨hz, -⟩ | ⟨hz, -⟩
      · exact absurd hz hne
      · exact .inl hz
      · exact .inr hz
  · rintro rfl
    obtain ⟨hcount, -, hexpected⟩ := hr.sink_left hsound
    obtain ⟨e, he, htoNat⟩ := Option.map_eq_some_iff.1 hexpected
    exact ⟨e, he, htoNat.symm, hcount.symm.trans htoNat.symm⟩

/-- One sample of a field of eight bits. -/
def oneSample : Workload where
  feed := Pull.ofEvents #[some ⟨0, 0, 250⟩]
  breaksAt := fun _ => false

/-- The extender finds its ring empty; then the source pushes the only sample and ends; then the extender sees that
it has ended. It looks again, and misses nothing. -/
theorem last_push_not_missed :
    let begun := World.start false ⟨.stopped, .stopped, .stopped⟩ (.empty ⟨1, by decide⟩)
      (.empty ⟨0, by decide⟩)
    let w := begun.applyAll ((narrow none).job .willing oneSample)
      ((List.replicate 5 StageKind.extender ++ List.replicate 11 StageKind.source ++
        (List.replicate 24 [StageKind.extender, .sink]).flatten).map .step)
    let report : RunReport :=
      { stages := ⟨⟨.source, .stopped, .inputExhausted, 1, 1, 0⟩, ⟨.extender, .stopped, .inputExhausted, 1, 1, 0⟩,
          ⟨.sink, .stopped, .inputExhausted, 1, 1, 0⟩⟩
        inboundResident := 0
        outboundResident := 0
        expected := none
        shutdownRequested := false }
    w.outcome? ((narrow none).job .willing oneSample) = some (.ok report) ∧ w.inbound.toList = [] ∧
      w.outbound.toList = [] := by
  intro begun w report
  have hreach : World.Reachable ((narrow none).job .willing oneSample) begun w := .steps .begun _
  have houtcome : w.outcome? ((narrow none).job .willing oneSample) = some (.ok report) := by decide +kernel
  obtain ⟨hextender, hsink, -⟩ := exits_fit (p := narrow none) (m := .willing) rfl hreach houtcome
  exact ⟨houtcome, (hextender rfl).1, (hsink rfl).1⟩

/-! ## Complete runs -/

/-- A run that the report calls complete, whatever stopped its stages. If nothing in particular was expected, the
feed was called until it had ended, and the values of all events that it answered with before were delivered.
If a number was expected, there were as many events, and the values of so many were delivered. Nothing else
was delivered. -/
theorem complete_run_delivered (hlaunch : p.launch m = .ok begun)
    (hreach : World.Reachable (p.job m load) begun w) {report : RunReport}
    (houtcome : w.outcome? (p.job m load) = some (.ok report)) (hcomplete : report.complete = true) :
    (p.config.expected = none →
      ∃ n, w.calls = n + 1 ∧ load.Fed n ∧ load.feed n = .ended ∧
        w.delivered.toList = (Unwrapper.ofSeed p.config.field p.config.seed).values
          ((load.answered n).map Descriptor.truncatedTs)) ∧
    (∀ e, p.config.expected = some e →
      e.toNat ≤ load.eventCount ∧ w.delivered.size = e.toNat ∧
        w.delivered.toList = (Unwrapper.ofSeed p.config.field p.config.seed).values
          ((load.answered e.toNat).map Descriptor.truncatedTs)) := by
  have hsound := reachable_sound hlaunch hreach
  obtain ⟨a, x, b, y, c, z, hr, rfl⟩ := World.returned_of_outcome? houtcome
  obtain ⟨hle, hvalues⟩ := hr.delivered_first hsound
  obtain ⟨hreceived, -, -, hexit⟩ := hr.source_left hsound
  obtain ⟨hcount, -, -⟩ := hr.sink_left hsound
  simp only [World.reportOf, RunReport.complete, RunReport.delivered, Tally.report, Delivery.tally, Pipeline.job]
    at hcomplete
  constructor
  · intro hnone
    simp only [hnone, Option.map_none, Bool.and_eq_true, beq_iff_eq] at hcomplete
    obtain ⟨⟨rfl, -⟩, hdelivered⟩ := hcomplete
    -- The source ran out of input, so the feed had ended.
    obtain ⟨hclosed, -⟩ := hexit
    obtain ⟨n, hn, -⟩ := id hclosed
    rw [hn] at hclosed
    obtain ⟨hfed, hended, hanswered⟩ := hclosed.answered_eq
    have hcalls : c.count = n := by
      rw [hdelivered, hreceived, hn, hanswered, hfed.length_answered]
    rw [hcalls] at hvalues
    exact ⟨n, hn, hfed, hended, hvalues⟩
  · intro e he
    simp only [he, Option.map_some, beq_iff_eq] at hcomplete
    rw [hcomplete] at hle hvalues
    exact ⟨hle, hcount.symm.trans hcomplete, hvalues⟩

/-- The signal is raised behind the end of the source. The sink is told to stop before it sees that there is nothing
more, but all three samples are delivered. -/
theorem stopped_run_complete :
    let begun := World.start false ⟨.stopped, .stopped, .stopped⟩ (.empty ⟨1, by decide⟩)
      (.empty ⟨0, by decide⟩)
    let w := ((begun.applyAll ((narrow none).job .willing threeSamples)
        ((List.replicate 22 [StageKind.source, .extender, .sink]).flatten.map .step)).apply
        ((narrow none).job .willing threeSamples) .raiseSignal).applyAll ((narrow none).job .willing threeSamples)
      ((List.replicate 9 [StageKind.extender, .sink]).flatten.map .step)
    let report : RunReport :=
      { stages := ⟨⟨.source, .stopped, .inputExhausted, 3, 3, 0⟩, ⟨.extender, .stopped, .inputExhausted, 3, 3, 0⟩,
          ⟨.sink, .stopped, .shutdown, 3, 3, 0⟩⟩
        inboundResident := 0
        outboundResident := 0
        expected := none
        shutdownRequested := true }
    w.outcome? ((narrow none).job .willing threeSamples) = some (.ok report) ∧ report.complete = true ∧
      ∃ n, w.calls = n + 1 ∧ w.delivered.toList = (Unwrapper.ofSeed ⟨8, by decide, by decide⟩ 240).values
        ((threeSamples.answered n).map Descriptor.truncatedTs) := by
  intro begun w report
  have hreach : World.Reachable ((narrow none).job .willing threeSamples) begun w :=
    .steps (.raise (.steps .begun _)) _
  have houtcome : w.outcome? ((narrow none).job .willing threeSamples) = some (.ok report) := by decide +kernel
  have hcomplete : report.complete = true := by decide
  obtain ⟨hall, -⟩ := complete_run_delivered (p := narrow none) (m := .willing) rfl hreach houtcome hcomplete
  obtain ⟨n, hn, -, -, hvalues⟩ := hall rfl
  exact ⟨houtcome, hcomplete, n, hn, hvalues⟩

end Pipeline

end TimestampRelay
