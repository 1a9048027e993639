/-
How a run ends that nobody stops: either the sink has delivered as many values as it was asked for, or
the feed has ended and everything it answered with was rebuilt and delivered.
-/
import TimestampRelay.Proofs.Run.Causes

namespace TimestampRelay

/-! ## How many events there are -/

namespace Workload

variable {load : Workload} {n : Nat}

/-- How many events the feed answers with before its first end, infinitely many if it never ends. -/
noncomputable def eventCount (load : Workload) : ℕ∞ :=
  ⨅ n, ⨅ _ : load.feed n = .ended, (n : ℕ∞)

theorem Fed.le_eventCount (h : load.Fed n) : (n : ℕ∞) ≤ load.eventCount := by
  refine le_iInf₂ fun m hended => ?_
  by_contra hlt
  obtain ⟨d, hd⟩ := h m (by simpa using hlt)
  rw [hd] at hended
  cases hended

theorem Fed.eventCount_eq (h : load.Fed n) (hended : load.feed n = .ended) :
    load.eventCount = n :=
  le_antisymm (iInf₂_le n hended) h.le_eventCount

theorem Fed.length_answered (h : load.Fed n) : (load.answered n).length = n := by
  induction n with
  | zero => rfl
  | succ n ih =>
    obtain ⟨d, hd⟩ := h n (Nat.lt_succ_self n)
    rw [answered_succ, hd, List.length_append, ih fun call hcall => h call (Nat.lt_succ_of_lt hcall)]
    rfl

theorem answered_prefix (load : Workload) {k : Nat} (hle : k ≤ n) : load.answered k <+: load.answered n := by
  induction n, hle using Nat.le_induction with
  | base => exact List.prefix_rfl
  | succ n _ ih =>
    rw [answered_succ]
    exact ih.trans (List.prefix_append _ _)

theorem Fed.take_answered (h : load.Fed n) {k : Nat} (hle : k ≤ n) :
    (load.answered n).take k = load.answered k := by
  have hfed : load.Fed k := fun call hcall => h call (Nat.lt_of_lt_of_le hcall hle)
  have hprefix := List.prefix_iff_eq_take.1 (load.answered_prefix hle)
  rw [hfed.length_answered] at hprefix
  exact hprefix.symm

/-- The end of the feed adds no event. -/
theorem Closed.answered_eq (h : load.Closed (n + 1)) : load.Fed n ∧ load.feed n = .ended ∧
    load.answered (n + 1) = load.answered n := by
  obtain ⟨m, hm, hfed, hended⟩ := h
  obtain rfl : n = m := Nat.succ_inj.1 hm
  refine ⟨hfed, hended, ?_⟩
  rw [answered_succ, hended]
  exact List.append_nil _

end Workload

/-- A source that left its loop had been given events so far, or the end of the feed behind them. -/
theorem Intake.Left.fed_or_closed {job : Job} {signal downDone : Bool} {calls : Nat} {last : Intake}
    {exit : ExitReason} (h : last.Left job signal downDone calls exit) :
    job.workload.Fed calls ∨ job.workload.Closed calls := by
  obtain ⟨-, -, -, hexit⟩ := h
  cases exit with
  | inputExhausted => exact .inr hexit.1
  | shutdown | downstreamStopped => exact hexit.1
  | expectedReached => exact hexit.elim

/-- All that a source pulled are the events in front of the feed. -/
theorem Intake.Left.fed {job : Job} {signal downDone : Bool} {calls : Nat} {last : Intake}
    {exit : ExitReason} (h : last.Left job signal downDone calls exit) :
    ∃ n, job.workload.Fed n ∧ job.workload.answered calls = job.workload.answered n := by
  rcases h.fed_or_closed with hfed | hclosed
  · exact ⟨calls, hfed, rfl⟩
  · obtain ⟨n, rfl, -⟩ := id hclosed
    obtain ⟨hfed, -, heq⟩ := hclosed.answered_eq
    exact ⟨n, hfed, heq⟩

namespace World

variable {job : Job} {w : World} {a : Intake} {b : Extension} {c : Delivery} {x y z : ExitReason}

/-- A stage that has ended without failing returned. -/
theorem returned_of_hasEnded {β : Type} {worker : Worker β} (hended : worker.hasEnded = true)
    (hok : worker.position.hasFailed ≠ true) :
    ∃ last exit, worker.position = .ended (.returned last exit) := by
  unfold Worker.hasEnded at hended
  split at hended
  · rename_i ending heq
    rw [heq] at hok ⊢
    cases ending with
    | returned last exit => exact ⟨last, exit, rfl⟩
    | broken | unpinned => exact absurd rfl hok
  · cases hended

/-- The stages of a run ended for these reasons, in these states. -/
structure Returned (w : World) (a : Intake) (x : ExitReason) (b : Extension) (y : ExitReason) (c : Delivery)
    (z : ExitReason) : Prop where
  source : w.source.position = .ended (.returned a x)
  extender : w.extender.position = .ended (.returned b y)
  sink : w.sink.position = .ended (.returned c z)

/-- Where no signal was raised, no stage failed. -/
theorem Causes.returned (h : w.Causes) (hended : ∀ stage, w.hasEnded stage = true)
    (hsignal : w.signal = false) : ∃ a x b y c z, w.Returned a x b y c z := by
  have hquiet : w.signal ≠ true := by
    rw [hsignal]
    exact Bool.false_ne_true
  obtain ⟨a, x, ha⟩ := returned_of_hasEnded (hended .source) fun hfailed => hquiet (h.source.alarm hfailed)
  obtain ⟨b, y, hb⟩ := returned_of_hasEnded (hended .extender) fun hfailed => hquiet (h.extender.alarm hfailed)
  obtain ⟨c, z, hc⟩ := returned_of_hasEnded (hended .sink) fun hfailed => hquiet (h.sink.alarm hfailed)
  exact ⟨a, x, b, y, c, z, ha, hb, hc⟩

/-- The report of a run whose stages ended for these reasons, in these states. -/
def reportOf (job : Job) (w : World) (a : Intake) (x : ExitReason) (b : Extension) (y : ExitReason)
    (c : Delivery) (z : ExitReason) : RunReport where
  stages := ⟨a.tally.report .source x, b.tally.report .extender y, c.tally.report .sink z⟩
  inboundResident := w.inbound.len
  outboundResident := w.outbound.len
  expected := job.expected
  shutdownRequested := w.signal

namespace Returned

theorem outcome? (hr : w.Returned a x b y c z) :
    w.outcome? job = some (.ok (reportOf job w a x b y c z)) := by
  simp only [World.outcome?, World.result?, World.result?.ended?, hr.source, hr.extender, hr.sink]
  rfl

theorem source_left (hr : w.Returned a x b y c z) (hs : w.Sound job) :
    a.Left job w.signal w.extender.done w.calls x :=
  hs.source.of_returned hr.source

theorem extender_left (hr : w.Returned a x b y c z) (hs : w.Sound job) :
    b.Left job w.signal w.source.done w.sink.done y :=
  hs.extender.of_returned hr.extender

theorem sink_left (hr : w.Returned a x b y c z) (hs : w.Sound job) :
    c.Left job w.signal w.extender.done w.delivered.size z :=
  hs.sink.of_returned hr.sink

theorem source_held (hr : w.Returned a x b y c z) : w.source.held Intake.held = a.held :=
  held_eq _ (by rw [hr.source]; rfl)

theorem extender_held (hr : w.Returned a x b y c z) : w.extender.held Extension.held = b.held :=
  held_eq _ (by rw [hr.extender]; rfl)

theorem sink_held (hr : w.Returned a x b y c z) : w.sink.held Delivery.held = c.held :=
  held_eq _ (by rw [hr.sink]; rfl)

/-- A source that did not run out of input was told to stop, or its neighbour had stopped, which then had not run
out of input either. -/
theorem source_cause (hr : w.Returned a x b y c z) (hs : w.Sound job) (hc : w.Causes) :
    x = .inputExhausted ∨ x = .shutdown ∧ w.signal = true ∨ x = .downstreamStopped ∧ y ≠ .inputExhausted := by
  obtain ⟨-, -, -, hleft⟩ := hr.source_left hs
  cases x with
  | inputExhausted => exact .inl rfl
  | shutdown => exact .inr (.inl ⟨rfl, hleft.2⟩)
  | downstreamStopped =>
    obtain ⟨-, hne⟩ := hc.sourceStopped (by rw [hr.source]; rfl)
    refine .inr (.inr ⟨rfl, ?_⟩)
    rintro rfl
    exact hne (by rw [hr.extender]; rfl)
  | expectedReached => exact hleft.elim

/-- The same of the extender, which leaves nothing in front of it when it runs out of input. -/
theorem extender_cause (hr : w.Returned a x b y c z) (hs : w.Sound job) (hc : w.Causes) :
    y = .inputExhausted ∧ w.inbound.toList = [] ∨ y = .shutdown ∧ w.signal = true ∨
      y = .downstreamStopped ∧ z ≠ .inputExhausted := by
  obtain ⟨-, -, hleft⟩ := hr.extender_left hs
  cases y with
  | inputExhausted => exact .inl ⟨rfl, (hc.extenderExhausted (by rw [hr.extender]; rfl)).2⟩
  | shutdown => exact .inr (.inl ⟨rfl, hleft⟩)
  | downstreamStopped =>
    obtain ⟨-, hne⟩ := hc.extenderStopped (by rw [hr.extender]; rfl)
    refine .inr (.inr ⟨rfl, ?_⟩)
    rintro rfl
    exact hne (by rw [hr.sink]; rfl)
  | expectedReached => exact hleft.elim

/-- A sink that was not told to stop ran out of input, with nothing left in front of it, or has delivered what was
expected. -/
theorem sink_cause (hr : w.Returned a x b y c z) (hs : w.Sound job) (hc : w.Causes) :
    z = .inputExhausted ∧ w.outbound.toList = [] ∨ z = .shutdown ∧ w.signal = true ∨
      z = .expectedReached ∧ job.expected = some c.count := by
  obtain ⟨-, -, hleft⟩ := hr.sink_left hs
  cases z with
  | inputExhausted => exact .inl ⟨rfl, (hc.sinkExhausted (by rw [hr.sink]; rfl)).2⟩
  | shutdown => exact .inr (.inl ⟨rfl, hleft⟩)
  | expectedReached => exact .inr (.inr ⟨rfl, hleft⟩)
  | downstreamStopped => exact hleft.elim

/-- A sink that ran out of input had an extender and a source that did: where no signal was raised, neither
can have given up before. -/
theorem exhausted (hr : w.Returned a x b y c .inputExhausted) (hs : w.Sound job) (hc : w.Causes)
    (hsignal : w.signal = false) :
    x = .inputExhausted ∧ y = .inputExhausted ∧ w.inbound.toList = [] ∧ w.outbound.toList = [] := by
  have hquiet : w.signal ≠ true := by
    rw [hsignal]
    exact Bool.false_ne_true
  rcases hr.sink_cause hs hc with ⟨-, houtbound⟩ | ⟨hz, -⟩ | ⟨hz, -⟩
  · -- The extender did not stop because of the sink, which ran out of input behind it.
    rcases hr.extender_cause hs hc with ⟨rfl, hinbound⟩ | ⟨-, hraised⟩ | ⟨-, hne⟩
    · rcases hr.source_cause hs hc with rfl | ⟨-, hraised⟩ | ⟨-, hne⟩
      · exact ⟨rfl, rfl, hinbound, houtbound⟩
      · exact absurd hraised hquiet
      · exact absurd rfl hne
    · exact absurd hraised hquiet
    · exact absurd rfl hne
  · cases hz
  · cases hz

/-- A run in which everyone ran out of input has delivered all there was. -/
theorem delivered_all (hr : w.Returned a .inputExhausted b .inputExhausted c .inputExhausted)
    (hs : w.Sound job) (hinbound : w.inbound.toList = []) (houtbound : w.outbound.toList = []) :
    ∃ n : Nat, job.workload.eventCount = n ∧ a.tally.received = n ∧ c.count = n ∧
      w.delivered.toList = job.start.values ((job.workload.answered n).map Descriptor.truncatedTs) := by
  obtain ⟨hreceived, -, -, hclosed, hsource⟩ := hr.source_left hs
  obtain ⟨-, -, -, hextender⟩ := hr.extender_left hs
  obtain ⟨hcount, hsink, -⟩ := hr.sink_left hs
  obtain ⟨n, hn, -⟩ := id hclosed
  rw [hn] at hclosed
  obtain ⟨hfed, hended, hanswered⟩ := hclosed.answered_eq
  have hpulled : w.pulled job = job.workload.answered n := by
    rw [← hanswered, ← hn]
    rfl
  have hextend : w.toExtend = [] := by
    rw [toExtend, hinbound, hr.source_held, hsource]
    rfl
  have hdeliver : w.toDeliver = [] := by
    rw [toDeliver, houtbound, hr.sink_held, hsink,
      hr.extender_held, hextender]
    rfl
  have hvalues := hs.inOrder.values_pulled
  rw [hpulled, hextend, hdeliver, List.map_nil, Unwrapper.values, List.append_nil, List.append_nil] at hvalues
  refine ⟨n, hfed.eventCount_eq hended, ?_, ?_, hvalues.symm⟩
  · rw [hreceived, hn, hanswered, hfed.length_answered]
  · rw [hcount, ← Array.length_toList, ← hvalues, Unwrapper.length_values, List.length_map,
      hfed.length_answered]

/-- A run in which everyone ran out of input has dropped nothing. -/
theorem dropped_eq_zero (hr : w.Returned a .inputExhausted b .inputExhausted c .inputExhausted)
    (hs : w.Sound job) (stage : StageKind) :
    ((reportOf job w a .inputExhausted b .inputExhausted c .inputExhausted).stages.get stage).dropped = 0 := by
  obtain ⟨-, hsource, -, -, hheld⟩ := hr.source_left hs
  obtain ⟨hextender, -, -, hheld'⟩ := hr.extender_left hs
  rw [hheld, List.length_nil, Nat.add_zero] at hsource
  rw [hheld', List.length_nil, Nat.add_zero] at hextender
  cases stage with
  | source =>
    show a.tally.received - a.tally.forwarded = 0
    rw [hsource, Nat.sub_self]
  | extender =>
    show b.tally.received - b.tally.forwarded = 0
    rw [hextender, Nat.sub_self]
  | sink => exact Nat.sub_self c.count

/-- A run in which everyone ran out of input is complete unless more was expected. -/
theorem complete_iff_none (hr : w.Returned a .inputExhausted b .inputExhausted c .inputExhausted)
    (hs : w.Sound job) (hcount : a.tally.received = c.count) :
    (reportOf job w a .inputExhausted b .inputExhausted c .inputExhausted).complete = true ↔
      job.expected = none := by
  have hdropped := hr.dropped_eq_zero hs
  obtain ⟨-, -, -, hmore⟩ := hr.sink_left hs
  unfold RunReport.complete
  cases he : job.expected with
  | none =>
    simp only [reportOf, he, RunReport.dropped, RunReport.delivered, iff_true]
    have hsource := hdropped .source
    have hextender := hdropped .extender
    have hsink := hdropped .sink
    simp only [reportOf, PerStage.get] at hsource hextender hsink
    rw [hsource, hextender, hsink]
    show (c.count == a.tally.received) = true
    rw [hcount, beq_self_eq_true]
  | some e =>
    have hlt := hmore e he
    simp only [reportOf, he, RunReport.delivered, beq_iff_eq, reduceCtorEq, iff_false]
    exact hlt.ne

/-- Whatever made the stages stop, the sink has delivered the first values of those that there are. -/
theorem delivered_first (hr : w.Returned a x b y c z) (hs : w.Sound job) :
    (c.count : ℕ∞) ≤ job.workload.eventCount ∧
      w.delivered.toList =
        job.start.values ((job.workload.answered c.count).map Descriptor.truncatedTs) := by
  obtain ⟨hcount, -, -⟩ := hr.sink_left hs
  obtain ⟨n, hfed, hanswered⟩ := (hr.source_left hs).fed
  have hpulled : w.pulled job = job.workload.answered n := hanswered
  have hvalues := hs.inOrder.values_pulled
  rw [hpulled, List.append_assoc] at hvalues
  have hsize : w.delivered.toList.length = c.count := by
    rw [Array.length_toList, hcount]
  have hle : c.count ≤ n := by
    have hlength := congrArg List.length hvalues
    rw [Unwrapper.length_values, List.length_map, hfed.length_answered, List.length_append, hsize] at hlength
    omega
  refine ⟨le_trans (Nat.cast_le.2 hle) hfed.le_eventCount, ?_⟩
  -- What was delivered is what the reference begins with, cut to the length delivered.
  have htake := congrArg (List.take c.count) hvalues
  rw [List.take_left' hsize, ← Unwrapper.values_take, ← List.map_take, hfed.take_answered hle] at htake
  exact htake.symm

/-- A run whose sink has delivered what was expected has delivered the first values. -/
theorem delivered_expected (hr : w.Returned a x b y c .expectedReached) (hs : w.Sound job) :
    job.expected = some c.count ∧ (c.count : ℕ∞) ≤ job.workload.eventCount ∧
      w.delivered.toList =
        job.start.values ((job.workload.answered c.count).map Descriptor.truncatedTs) := by
  obtain ⟨-, -, hexpected⟩ := hr.sink_left hs
  exact ⟨hexpected, hr.delivered_first hs⟩

end Returned

end World

namespace Pipeline

variable {p : Pipeline} {m : Machine} {load : Workload} {begun w : World}

theorem reachable_causes (hlaunch : p.launch m = .ok begun)
    (hreach : World.Reachable (p.job m load) begun w) : w.Causes := by
  refine hreach.causes p.config.burst_pos (launch_sound hlaunch) ?_
  rw [launch_eq hlaunch]
  exact World.start_causes _ _ _ _

/-- How a run ends during which no signal was raised, so that no stage failed either. If more is expected
than there are events, or nothing in particular, everything is delivered: all stages ran out of input,
dropped nothing, and left nothing in the rings. If as many are expected as there are or fewer, the
sink delivers as many and stops. The report calls the run complete unless more was expected. -/
theorem quiet_run_outcome (hlaunch : p.launch m = .ok begun)
    (hreach : World.Reachable (p.job m load) begun w) (hended : ∀ stage, w.hasEnded stage = true)
    (hsignal : w.signal = false) :
    ∃ report, w.outcome? (p.job m load) = some (.ok report) ∧
      ((∀ e, p.config.expected = some e → load.eventCount < e.toNat) →
        (∀ stage, (report.stages.get stage).exit = .inputExhausted ∧ (report.stages.get stage).dropped = 0) ∧
          w.inbound.toList = [] ∧ w.outbound.toList = [] ∧
          ∃ n : Nat, load.eventCount = n ∧
            w.delivered.toList = (Unwrapper.ofSeed p.config.field p.config.seed).values
              ((load.answered n).map Descriptor.truncatedTs)) ∧
      (∀ e, p.config.expected = some e → e.toNat ≤ load.eventCount →
        report.stages.sink.exit = .expectedReached ∧
          w.delivered.toList = (Unwrapper.ofSeed p.config.field p.config.seed).values
            ((load.answered e.toNat).map Descriptor.truncatedTs)) ∧
      (report.complete = true ↔ ∀ e, p.config.expected = some e → e.toNat ≤ load.eventCount) := by
  have hsound := reachable_sound hlaunch hreach
  have hcauses := reachable_causes hlaunch hreach
  obtain ⟨a, x, b, y, c, z, hr⟩ := hcauses.returned hended hsignal
  have hexpected : (p.job m load).expected = p.config.expected.map UInt64.toNat := rfl
  refine ⟨_, hr.outcome?, ?_⟩
  obtain ⟨-, -, hexit⟩ := hr.sink_left hsound
  cases z with
  | shutdown => exact absurd (hsignal.symm.trans hexit) Bool.false_ne_true
  | downstreamStopped => exact hexit.elim
  | inputExhausted =>
    obtain ⟨rfl, rfl, hinbound, houtbound⟩ := hr.exhausted hsound hcauses hsignal
    obtain ⟨n, hn, hreceived, hdelivered, hvalues⟩ := hr.delivered_all hsound hinbound houtbound
    -- If anything was expected, it was more than there is.
    have hmore : ∀ e, p.config.expected = some e → ¬ (e.toNat : ℕ∞) ≤ load.eventCount := by
      intro e he
      have hlt : c.count < e.toNat := hexit.2 e.toNat (by rw [hexpected, he]; rfl)
      rw [show load.eventCount = n from hn, Nat.cast_le, ← hdelivered]
      exact Nat.not_le.2 hlt
    refine ⟨fun _ => ⟨?_, hinbound, houtbound, n, hn, hvalues⟩, ?_, ?_⟩
    · intro stage
      exact ⟨by cases stage <;> rfl, hr.dropped_eq_zero hsound stage⟩
    · intro e he hle
      exact absurd hle (hmore e he)
    · rw [hr.complete_iff_none hsound (hreceived.trans hdelivered.symm), hexpected, Option.map_eq_none_iff]
      constructor
      · intro hnone e he
        rw [hnone] at he
        cases he
      · intro hle
        exact Option.eq_none_iff_forall_ne_some.2 fun e he => hmore e he (hle e he)
  | expectedReached =>
    obtain ⟨he, hle, hvalues⟩ := hr.delivered_expected hsound
    obtain ⟨e, hconfig, hcount⟩ := Option.map_eq_some_iff.1 (hexpected.symm.trans he)
    have honly : ∀ e', p.config.expected = some e' → e'.toNat = c.count := by
      intro e' he'
      rw [← hcount, Option.some.inj (he'.symm.trans hconfig)]
    refine ⟨?_, ?_, ?_⟩
    · intro hmore
      have hlt := hmore e hconfig
      rw [hcount] at hlt
      exact absurd hle (not_le.2 hlt)
    · intro e' he' _
      rw [honly e' he']
      exact ⟨rfl, hvalues⟩
    · constructor
      · intro _ e' he'
        rw [honly e' he']
        exact hle
      · intro _
        simp only [World.reportOf, RunReport.complete, he]
        exact beq_self_eq_true c.count

/-- The stages take turns until the three samples are delivered and all have ended. -/
theorem three_samples_complete :
    let begun := World.start false ⟨.stopped, .stopped, .stopped⟩ (.empty ⟨1, by decide⟩)
      (.empty ⟨0, by decide⟩)
    let w := begun.applyAll ((narrow none).job .willing threeSamples)
      ((List.replicate 40 [StageKind.source, .extender, .sink]).flatten.map .step)
    (∀ stage, w.hasEnded stage = true) ∧ w.signal = false ∧
      ∃ report, w.outcome? ((narrow none).job .willing threeSamples) = some (.ok report) ∧
        report.complete = true ∧ w.inbound.toList = [] ∧ w.outbound.toList = [] := by
  intro begun w
  have hreach : World.Reachable ((narrow none).job .willing threeSamples) begun w := .steps .begun _
  have hended : ∀ stage, w.hasEnded stage = true := by
    intro stage
    cases stage <;> decide +kernel
  have hsignal : w.signal = false := by decide +kernel
  obtain ⟨report, hreport, hall, -, hcomplete⟩ :=
    quiet_run_outcome (p := narrow none) (m := .willing) rfl hreach hended hsignal
  obtain ⟨-, hinbound, houtbound, -⟩ := hall fun _ h => (nomatch h)
  exact ⟨hended, hsignal, report, hreport, hcomplete.2 fun _ h => (nomatch h), hinbound, houtbound⟩

end Pipeline

end TimestampRelay
