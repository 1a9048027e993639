/-
Runs keep their items in order. In every state that an interleaving of the stages leads to, the values
delivered, those on their way, and those still to be rebuilt from the events on their way make up the
values of all events pulled so far, rebuilt one by one.
-/
import TimestampRelay.Pipeline
import TimestampRelay.Proofs.Run.Stages

namespace TimestampRelay

/-! ## Steps outside the loops -/

namespace Worker

variable {β : Type} {job : Job} {kind : StageKind} {first : β} {w : Worker β} {signal : Bool}

theorem afterBind_eq (job : Job) (kind : StageKind) :
    (afterBind job kind : Position β) = .enter ∨
      ∃ core cause, (afterBind job kind : Position β) = .refused core cause := by
  unfold afterBind
  split
  · split
    · exact .inr ⟨_, _, rfl⟩
    · exact .inl rfl
  · exact .inl rfl

/-- Outside the loop a stage stands as it stood, or it enters its loop. -/
theorem last?_advance (job : Job) (kind : StageKind) (first : β) (w : Worker β) (signal : Bool) :
    (w.advance job kind first signal).1.position.last? = w.position.last? ∨
      w.position.last? = none ∧ (w.advance job kind first signal).1.position = .loop first := by
  obtain ⟨position, state, done⟩ := w
  cases position with
  | bind =>
    refine .inl ?_
    show (afterBind job kind : Position β).last? = none
    rcases afterBind_eq (β := β) job kind with h | ⟨core, cause, h⟩ <;> rw [h] <;> rfl
  | enter => exact .inr ⟨rfl, rfl⟩
  | refused | loop | broken | leave | finish | ended => exact .inl rfl

theorem last?_of_advance (h : (w.advance job kind first signal).1.position.last? = none) :
    w.position.last? = none := by
  rcases last?_advance job kind first w signal with heq | ⟨hnone, -⟩
  · rw [← heq]
    exact h
  · exact hnone

theorem meets_advance {loop : β → Prop} {left : β → ExitReason → Prop} (h : w.position.Meets loop left)
    (hfirst : w.position.last? = none → loop first) :
    (w.advance job kind first signal).1.position.Meets loop left := by
  obtain ⟨position, state, done⟩ := w
  cases position with
  | bind =>
    show (afterBind job kind : Position β).Meets loop left
    rcases afterBind_eq (β := β) job kind with h | ⟨core, cause, h⟩ <;> rw [h] <;> trivial
  | enter => exact hfirst rfl
  | leave ending | finish ending => cases ending <;> exact h
  | refused | broken => trivial
  | loop | ended => exact h

theorem held_advance {α : Type} {held : β → List α} (hfirst : held first = []) :
    (w.advance job kind first signal).1.held held = w.held held := by
  unfold Worker.held
  rcases last?_advance job kind first w signal with h | ⟨hnone, hloop⟩
  · rw [h]
  · rw [hnone, hloop]
    exact hfirst

theorem signal_advance (h : signal = true) : (w.advance job kind first signal).2 = true := by
  unfold advance
  split <;> first | rfl | exact h

theorem done_advance (h : w.done = true) : (w.advance job kind first signal).1.done = true := by
  unfold advance
  split <;> first | rfl | exact h

end Worker

namespace World

variable {job : Job} {w : World}

/-! ## Steps by where the stage stands -/

/-- The source steps in its loop, or outside of it. -/
theorem stepSource_cases (job : Job) (w : World) :
    (∃ s, w.source.position = .loop s ∧
      w.stepSource job =
        { w with
          inbound := (s.step job w.sourceOutlet w.calls).1.ring
          calls := (s.step job w.sourceOutlet w.calls).2.1
          source :=
            { w.source with
              state := (s.step job w.sourceOutlet w.calls).1.state
              position := (s.step job w.sourceOutlet w.calls).2.2.position } }) ∨
      (∀ s, w.source.position ≠ .loop s) ∧
        w.stepSource job =
          { w with
            source := (w.source.advance job .source Intake.first w.signal).1
            signal := (w.source.advance job .source Intake.first w.signal).2 } := by
  unfold stepSource
  split
  · rename_i s hs
    exact .inl ⟨s, hs, rfl⟩
  · rename_i hout
    exact .inr ⟨hout, rfl⟩

theorem stepExtender_cases (job : Job) (w : World) :
    (∃ s, w.extender.position = .loop s ∧
      w.stepExtender job =
        { w with
          inbound := (s.step job w.inbound w.source.done w.extenderOutlet).1
          outbound := (s.step job w.inbound w.source.done w.extenderOutlet).2.1.ring
          extender :=
            { w.extender with
              state := (s.step job w.inbound w.source.done w.extenderOutlet).2.1.state
              position := (s.step job w.inbound w.source.done w.extenderOutlet).2.2.position } }) ∨
      (∀ s, w.extender.position ≠ .loop s) ∧
        w.stepExtender job =
          { w with
            extender := (w.extender.advance job .extender (Extension.first job.start) w.signal).1
            signal := (w.extender.advance job .extender (Extension.first job.start) w.signal).2 } := by
  unfold stepExtender
  split
  · rename_i s hs
    exact .inl ⟨s, hs, rfl⟩
  · rename_i hout
    exact .inr ⟨hout, rfl⟩

theorem stepSink_cases (job : Job) (w : World) :
    (∃ s, w.sink.position = .loop s ∧
      w.stepSink job =
        { w with
          outbound := (s.step job w.outbound w.signal w.extender.done w.delivered).1
          delivered := (s.step job w.outbound w.signal w.extender.done w.delivered).2.1
          sink :=
            { w.sink with
              position := (s.step job w.outbound w.signal w.extender.done w.delivered).2.2.position } }) ∨
      (∀ s, w.sink.position ≠ .loop s) ∧
        w.stepSink job =
          { w with
            sink := (w.sink.advance job .sink Delivery.first w.signal).1
            signal := (w.sink.advance job .sink Delivery.first w.signal).2 } := by
  unfold stepSink
  split
  · rename_i s hs
    exact .inl ⟨s, hs, rfl⟩
  · rename_i hout
    exact .inr ⟨hout, rfl⟩

/-! ## The invariant -/

/-- The items of a run are in order: behind the descriptors taken by the extender come those on their way
to it, and what the extender made of the former was delivered or is on its way to be. -/
def InOrder (job : Job) (w : World) : Prop :=
  ∃ extended : List Descriptor,
    w.pulled job = extended ++ w.toExtend ∧
      job.start.values (extended.map Descriptor.truncatedTs) = w.delivered.toList ++ w.toDeliver ∧
      w.unwrapper job = job.start.advanceAll (extended.map Descriptor.truncatedTs)

/-- The values of all events pulled are those delivered, those on their way, and those still to be rebuilt. -/
theorem InOrder.values_pulled (h : w.InOrder job) :
    job.start.values ((w.pulled job).map Descriptor.truncatedTs) =
      w.delivered.toList ++ w.toDeliver ++
        (w.unwrapper job).values (w.toExtend.map Descriptor.truncatedTs) := by
  obtain ⟨extended, hpulled, hvalues, hunwrapper⟩ := h
  rw [hpulled, List.map_append, Unwrapper.values_append, hvalues, ← hunwrapper]

/-- A run in which all is in order: its rings are between operations, each stage stands as it can against
what it shares with the others, and the items are in order. -/
structure Sound (job : Job) (w : World) : Prop where
  inbound : w.inbound.AtRest
  outbound : w.outbound.AtRest
  source :
    w.source.position.Meets (Intake.Sound job w.signal w.extender.done w.calls)
      (Intake.Left job w.signal w.extender.done w.calls)
  extender :
    w.extender.position.Meets (Extension.Sound job w.signal w.source.done w.sink.done)
      (Extension.Left job w.signal w.source.done w.sink.done)
  sink :
    w.sink.position.Meets (Delivery.Sound job w.extender.done w.delivered.size)
      (Delivery.Left job w.signal w.extender.done w.delivered.size)
  notCalled : w.source.position.last? = none → w.calls = 0
  notDelivered : w.sink.position.last? = none → w.delivered.size = 0
  inOrder : w.InOrder job

/-- A run whose stages stand as they stood, while the signal and the completion flags may have been
raised. -/
theorem Sound.raised {v : World} (h : w.Sound job) (hsignal : w.signal = true → v.signal = true)
    (hsource : w.source.done = true → v.source.done = true)
    (hextender : w.extender.done = true → v.extender.done = true)
    (hsink : w.sink.done = true → v.sink.done = true) (hcalls : v.calls = w.calls)
    (hdelivered : v.delivered = w.delivered) :
    w.source.position.Meets (Intake.Sound job v.signal v.extender.done v.calls)
        (Intake.Left job v.signal v.extender.done v.calls) ∧
      w.extender.position.Meets (Extension.Sound job v.signal v.source.done v.sink.done)
        (Extension.Left job v.signal v.source.done v.sink.done) ∧
      w.sink.position.Meets (Delivery.Sound job v.extender.done v.delivered.size)
        (Delivery.Left job v.signal v.extender.done v.delivered.size) := by
  rw [hcalls, hdelivered]
  exact ⟨h.source.imp (fun _ hs => hs.mono hsignal hextender) fun _ _ hl => hl.mono hsignal hextender,
    h.extender.imp (fun _ hs => hs.mono hsignal hsource hsink) fun _ _ hl => hl.mono hsignal hsource hsink,
    h.sink.imp (fun _ hs => hs.mono hextender) fun _ _ hl => hl.mono hsignal hextender⟩

/-! ## Steps of the source -/

theorem held_eq {β α : Type} (held : β → List α) {worker : Worker β} {last : β}
    (h : worker.position.last? = some last) : worker.held held = held last := by
  unfold Worker.held
  rw [h]

theorem Sound.stepSource (hburst : 0 < job.burst) (h : w.Sound job) : (w.stepSource job).Sound job := by
  rcases w.stepSource_cases job with ⟨s, hs, heq⟩ | ⟨-, heq⟩
  · have hstep := Intake.Sound.step (o := w.sourceOutlet) (h.source.of_loop hs) hburst h.inbound
    obtain ⟨more, hanswered, hitems⟩ := hstep.items
    obtain ⟨extended, hpulled, hvalues, hunwrapper⟩ := h.inOrder
    have hlast := (s.step job w.sourceOutlet w.calls).2.2.last?_position
    have hheld : w.source.held Intake.held = s.held := held_eq _ (by rw [hs]; rfl)
    rw [heq]
    -- What was pulled joins the descriptors on their way to the extender.
    refine ⟨hstep.atRest, h.outbound, hstep.meets.position, h.extender, h.sink, ?_, h.notDelivered,
      extended, ?_, hvalues, hunwrapper⟩
    · intro hnone
      cases hlast.symm.trans hnone
    · have hpulled : job.workload.answered w.calls = extended ++ (w.inbound.toList ++ s.held) := by
        rw [← hheld]
        exact hpulled
      show job.workload.answered (s.step job w.sourceOutlet w.calls).2.1 =
        extended ++ ((s.step job w.sourceOutlet w.calls).1.ring.toList ++ Worker.held Intake.held _)
      rw [held_eq Intake.held hlast, hitems, hanswered, hpulled, List.append_assoc]
      rfl
  · have hheld : (w.source.advance job .source Intake.first w.signal).1.held Intake.held =
        w.source.held Intake.held := Worker.held_advance rfl
    obtain ⟨hsource, hextender, hsink⟩ := h.raised
      (v := { w with
        source := (w.source.advance job .source Intake.first w.signal).1
        signal := (w.source.advance job .source Intake.first w.signal).2 })
      Worker.signal_advance Worker.done_advance id id rfl rfl
    rw [heq]
    refine ⟨h.inbound, h.outbound, Worker.meets_advance hsource ?_, hextender, hsink, ?_, h.notDelivered, ?_⟩
    · intro hnone
      rw [h.notCalled hnone]
      exact Intake.first_sound _ _ _
    · intro hnone
      exact h.notCalled (Worker.last?_of_advance hnone)
    · obtain ⟨extended, hpulled, hrest⟩ := h.inOrder
      refine ⟨extended, ?_, hrest⟩
      show w.pulled job = extended ++ (w.inbound.toList ++ Worker.held Intake.held _)
      rw [hheld]
      exact hpulled

/-! ## Steps of the extender -/

theorem unwrapper_eq {last : Extension} (h : w.extender.position.last? = some last) :
    w.unwrapper job = last.unwrapper := by
  unfold World.unwrapper
  rw [h]

theorem unwrapper_advance (job : Job) (w : World) :
    World.unwrapper job
        { w with
          extender := (w.extender.advance job .extender (Extension.first job.start) w.signal).1
          signal := (w.extender.advance job .extender (Extension.first job.start) w.signal).2 } =
      w.unwrapper job := by
  unfold World.unwrapper
  rcases Worker.last?_advance job .extender (Extension.first job.start) w.extender w.signal with
    heq | ⟨hnone, heq⟩
  · simp only [heq]
  · simp only [heq, hnone]
    rfl

theorem Sound.stepExtender (h : w.Sound job) : (w.stepExtender job).Sound job := by
  rcases w.stepExtender_cases job with ⟨s, hs, heq⟩ | ⟨-, heq⟩
  · have hstep := Extension.Sound.step (o := w.extenderOutlet) (h.extender.of_loop hs) h.inbound h.outbound
    obtain ⟨popped, hpopped, hunwrapper', -, hitems⟩ := hstep.items
    obtain ⟨extended, hpulled, hvalues, hunwrapper⟩ := h.inOrder
    have hlast := (s.step job w.inbound w.source.done w.extenderOutlet).2.2.last?_position
    have hheld : w.extender.held Extension.held = s.held := held_eq _ (by rw [hs]; rfl)
    have hstate : w.unwrapper job = s.unwrapper := unwrapper_eq (by rw [hs]; rfl)
    rw [heq]
    -- What was popped goes over from the descriptors on their way to those taken by the extender.
    refine ⟨hstep.inbound_atRest, hstep.outbound_atRest, h.source, hstep.meets.position, h.sink, h.notCalled,
      h.notDelivered, extended ++ popped, ?_, ?_, ?_⟩
    · show w.pulled job = extended ++ popped ++ (_ ++ w.source.held Intake.held)
      rw [hpulled, toExtend, hpopped]
      simp only [List.append_assoc]
    · show job.start.values _ =
        w.delivered.toList ++ (w.sink.held Delivery.held ++ _ ++ Worker.held Extension.held _)
      rw [held_eq Extension.held hlast, List.append_assoc (w.sink.held Delivery.held), hitems,
        List.map_append, Unwrapper.values_append, hvalues, ← hunwrapper, hstate, toDeliver, hheld]
      simp only [List.append_assoc]
      rfl
    · refine (unwrapper_eq hlast).trans ?_
      rw [List.map_append, Unwrapper.advanceAll_append, ← hunwrapper, hstate]
      exact hunwrapper'
  · have hheld : (w.extender.advance job .extender (Extension.first job.start) w.signal).1.held
        Extension.held = w.extender.held Extension.held := Worker.held_advance rfl
    obtain ⟨hsource, hextender, hsink⟩ := h.raised
      (v := { w with
        extender := (w.extender.advance job .extender (Extension.first job.start) w.signal).1
        signal := (w.extender.advance job .extender (Extension.first job.start) w.signal).2 })
      Worker.signal_advance id Worker.done_advance id rfl rfl
    obtain ⟨extended, hpulled, hvalues, hunwrapper⟩ := h.inOrder
    rw [heq]
    refine ⟨h.inbound, h.outbound, hsource, Worker.meets_advance hextender ?_, hsink, h.notCalled,
      h.notDelivered, extended, hpulled, ?_, ?_⟩
    · intro _
      exact Extension.first_sound _ _ _ _ _
    · show job.start.values _ =
        w.delivered.toList ++ (w.sink.held Delivery.held ++ w.outbound.toList ++ Worker.held Extension.held _)
      rw [hheld]
      exact hvalues
    · rw [unwrapper_advance]
      exact hunwrapper

/-! ## Steps of the sink -/

theorem Sound.stepSink (h : w.Sound job) : (w.stepSink job).Sound job := by
  rcases w.stepSink_cases job with ⟨s, hs, heq⟩ | ⟨-, heq⟩
  · have hstep := Delivery.Sound.step (h.sink.of_loop hs) h.outbound w.signal
    obtain ⟨extended, hpulled, hvalues, hunwrapper⟩ := h.inOrder
    have hlast := (s.step job w.outbound w.signal w.extender.done w.delivered).2.2.last?_position
    have hheld : w.sink.held Delivery.held = s.held := held_eq _ (by rw [hs]; rfl)
    rw [heq]
    refine ⟨h.inbound, hstep.atRest, h.source, h.extender, hstep.meets.position, h.notCalled, ?_,
      extended, hpulled, ?_, hunwrapper⟩
    · intro hnone
      cases hlast.symm.trans hnone
    · show job.start.values _ =
        Array.toList _ ++ (Worker.held Delivery.held _ ++ _ ++ w.extender.held Extension.held)
      rw [held_eq Delivery.held hlast, ← List.append_assoc, ← List.append_assoc, hstep.items, hvalues,
        toDeliver, hheld]
      simp only [List.append_assoc]
  · have hheld : (w.sink.advance job .sink Delivery.first w.signal).1.held Delivery.held =
        w.sink.held Delivery.held := Worker.held_advance rfl
    obtain ⟨hsource, hextender, hsink⟩ := h.raised
      (v := { w with
        sink := (w.sink.advance job .sink Delivery.first w.signal).1
        signal := (w.sink.advance job .sink Delivery.first w.signal).2 })
      Worker.signal_advance id id Worker.done_advance rfl rfl
    obtain ⟨extended, hpulled, hvalues, hunwrapper⟩ := h.inOrder
    rw [heq]
    refine ⟨h.inbound, h.outbound, hsource, hextender, Worker.meets_advance hsink ?_, h.notCalled, ?_,
      extended, hpulled, ?_, hunwrapper⟩
    · intro hnone
      rw [h.notDelivered hnone]
      exact Delivery.first_sound _ _
    · intro hnone
      exact h.notDelivered (Worker.last?_of_advance hnone)
    · show job.start.values _ =
        w.delivered.toList ++ (Worker.held Delivery.held _ ++ w.outbound.toList ++ w.extender.held Extension.held)
      rw [hheld]
      exact hvalues

/-! ## Whole runs -/

theorem Sound.raiseSignal (h : w.Sound job) : (w.apply job .raiseSignal).Sound job := by
  obtain ⟨hsource, hextender, hsink⟩ := h.raised (v := { w with signal := true })
    (fun _ => rfl) id id id rfl rfl
  exact ⟨h.inbound, h.outbound, hsource, hextender, hsink, h.notCalled, h.notDelivered, h.inOrder⟩

theorem start_sound (job : Job) (signal : Bool) (states : PerStage StageState) {inbound : Ring Descriptor}
    {outbound : Ring UInt64} (hin : inbound.AtRest) (hout : outbound.AtRest) (hin' : inbound.toList = [])
    (hout' : outbound.toList = []) : (World.start signal states inbound outbound).Sound job := by
  refine ⟨hin, hout, trivial, trivial, trivial, fun _ => rfl, fun _ => rfl, [], ?_, ?_, rfl⟩
  · show [] = [] ++ (inbound.toList ++ [])
    rw [hin']
    rfl
  · show [] = [] ++ ([] ++ outbound.toList ++ [])
    rw [hout']
    rfl

/-- Every state that an interleaving leads to is in order. -/
theorem Reachable.sound {begun : World} (hreach : Reachable job begun w) (hburst : 0 < job.burst)
    (hbegun : begun.Sound job) : w.Sound job := by
  induction hreach with
  | begun => exact hbegun
  | step stage _ ih =>
    cases stage with
    | source => exact ih.stepSource hburst
    | extender => exact ih.stepExtender
    | sink => exact ih.stepSink
  | raise _ ih => exact ih.raiseSignal

theorem Reachable.steps {begun : World} (hreach : Reachable job begun w) (stages : List StageKind) :
    Reachable job begun (w.applyAll job (stages.map .step)) := by
  induction stages generalizing w with
  | nil => exact hreach
  | cons stage stages ih => exact ih (.step stage hreach)

end World

namespace Pipeline

variable {p : Pipeline} {m : Machine} {load : Workload} {begun w : World}

theorem freshRing_spec {α : Type} [Inhabited α] (p : Pipeline) (c : Capacity) :
    (p.freshRing c : Ring α).AtRest ∧ (p.freshRing c : Ring α).toList = [] ∧
      (p.freshRing c : Ring α).capacity = c := by
  have hempty : (Ring.empty c : Ring α).AtRest := Ring.startingAt_atRest c 0
  have hnil : (Ring.empty c : Ring α).toList = [] := Ring.toList_startingAt c 0
  unfold freshRing
  split
  · obtain ⟨hrest, hlist, hcap⟩ := hempty.prefault
    exact ⟨hrest, hlist.trans hnil, hcap⟩
  · exact ⟨hempty, hnil, rfl⟩

/-- A run begins with fresh rings, and with the signal and the states that the pipeline has. -/
theorem launch_eq (h : p.launch m = .ok begun) :
    begun = .start p.signal p.states (p.freshRing p.config.inbound) (p.freshRing p.config.outbound) := by
  unfold launch at h
  split at h
  · cases h
  · exact (Except.ok.inj h).symm

theorem launch_sound (h : p.launch m = .ok begun) : begun.Sound (p.job m load) := by
  obtain ⟨hin, hin', -⟩ := p.freshRing_spec (α := Descriptor) p.config.inbound
  obtain ⟨hout, hout', -⟩ := p.freshRing_spec (α := UInt64) p.config.outbound
  rw [launch_eq h]
  exact World.start_sound _ _ _ hin hout hin' hout'

theorem reachable_sound (hlaunch : p.launch m = .ok begun)
    (hreach : World.Reachable (p.job m load) begun w) : w.Sound (p.job m load) :=
  hreach.sound p.config.burst_pos (launch_sound hlaunch)

/-- In every state of every run of a pipeline, whatever runs came before: the events pulled so far,
rebuilt one by one from the seed, are the values delivered, those popped by the sink, those in the
outbound ring and those held or given up by the extender, and then what the extender's reconstruction
goes on to make of the events in the inbound ring and of those held or given up by the source. -/
theorem pulled_values_in_order (hlaunch : p.launch m = .ok begun)
    (hreach : World.Reachable (p.job m load) begun w) :
    let reference := (Unwrapper.ofSeed p.config.field p.config.seed).values
      ((w.pulled (p.job m load)).map Descriptor.truncatedTs)
    let reached := w.unwrapper (p.job m load)
    let inbound := w.inbound.toList.map Descriptor.truncatedTs
    reference =
        w.delivered.toList ++ w.sink.held Delivery.held ++ w.outbound.toList ++
          w.extender.held Extension.held ++ reached.values inbound ++
          (reached.advanceAll inbound).values ((w.source.held Intake.held).map Descriptor.truncatedTs) ∧
      w.delivered.toList <+: reference := by
  intro reference reached inbound
  have hvalues : reference =
      w.delivered.toList ++ w.toDeliver ++ reached.values (w.toExtend.map Descriptor.truncatedTs) :=
    (reachable_sound hlaunch hreach).inOrder.values_pulled
  have hreference : reference =
      w.delivered.toList ++ w.sink.held Delivery.held ++ w.outbound.toList ++
        w.extender.held Extension.held ++ reached.values inbound ++
        (reached.advanceAll inbound).values ((w.source.held Intake.held).map Descriptor.truncatedTs) := by
    rw [hvalues, World.toDeliver, World.toExtend, List.map_append, Unwrapper.values_append]
    simp only [List.append_assoc]
    rfl
  refine ⟨hreference, ?_⟩
  rw [hreference]
  simp only [List.append_assoc]
  exact List.prefix_append _ _

/-! ## A small run -/

/-- A pipeline with rings of two slots and of one, whose bursts hold one item. -/
def narrow (expected : Option UInt64) : Pipeline where
  config :=
    { inbound := ⟨1, by decide⟩
      outbound := ⟨0, by decide⟩
      burst := 1
      burst_pos := by decide
      burst_le := by decide
      field := ⟨8, by decide, by decide⟩
      seed := 240
      expected := expected
      drainRetries := 0
      cores := none
      lockMemory := false
      prefault := false
      strict := false }
  signal := false
  states := ⟨.stopped, .stopped, .stopped⟩

/-- Three samples of a field of eight bits, the second behind a rollover. -/
def threeSamples : Workload where
  feed := Pull.ofEvents #[some ⟨0, 0, 250⟩, some ⟨0, 0, 5⟩, some ⟨0, 0, 10⟩]
  breaksAt := fun _ => false

/-- Six samples of the field, the second behind a rollover. -/
def sixSamples : Workload where
  feed :=
    Pull.ofEvents
      #[some ⟨0, 0, 250⟩, some ⟨0, 0, 5⟩, some ⟨0, 0, 10⟩, some ⟨0, 0, 20⟩, some ⟨0, 0, 30⟩, some ⟨0, 0, 40⟩]
  breaksAt := fun _ => false

/-- The stages take turns until the first sample is delivered and the sink has popped the second, and then the source
and the extender alone: the third sample is in the outbound ring, the extender holds the fourth, the fifth is in the
inbound ring, and the source holds the sixth. -/
theorem six_samples_in_order :
    let job := (narrow none).job .willing sixSamples
    let begun := World.start false ⟨.stopped, .stopped, .stopped⟩ (.empty ⟨1, by decide⟩)
      (.empty ⟨0, by decide⟩)
    let stages := List.replicate 16 [StageKind.source, .extender, .sink] ++ List.replicate 9 [.source, .extender]
    let w := begun.applyAll job (stages.flatten.map .step)
    let reached := w.unwrapper job
    let reference := (Unwrapper.ofSeed ⟨8, by decide, by decide⟩ 240).values [250, 5, 10, 20, 30, 40]
    w.delivered.toList = [250] ∧ w.sink.held Delivery.held = [261] ∧ w.outbound.toList = [266] ∧
      w.extender.held Extension.held = [276] ∧ w.inbound.toList.map Descriptor.truncatedTs = [30] ∧
      (w.source.held Intake.held).map Descriptor.truncatedTs = [40] ∧
      reference =
        [250] ++ [261] ++ [266] ++ [276] ++ reached.values [30] ++ (reached.advanceAll [30]).values [40] ∧
      [250] <+: reference := by
  intro job begun stages w reached reference
  have hreach : World.Reachable job begun w := .steps .begun _
  obtain ⟨horder, hfront⟩ := pulled_values_in_order (p := narrow none) (m := .willing) rfl hreach
  have hpulled : (w.pulled ((narrow none).job .willing sixSamples)).map Descriptor.truncatedTs =
      [250, 5, 10, 20, 30, 40] := by decide +kernel
  have hdelivered : w.delivered.toList = [250] := by decide +kernel
  have hsink : w.sink.held Delivery.held = [261] := by decide +kernel
  have houtbound : w.outbound.toList = [266] := by decide +kernel
  have hextender : w.extender.held Extension.held = [276] := by decide +kernel
  have hinbound : w.inbound.toList.map Descriptor.truncatedTs = [30] := by decide +kernel
  have hsource : (w.source.held Intake.held).map Descriptor.truncatedTs = [40] := by decide +kernel
  rw [hpulled, hdelivered] at hfront
  rw [hpulled, hdelivered, hsink, houtbound, hextender, hinbound, hsource] at horder
  exact ⟨hdelivered, hsink, houtbound, hextender, hinbound, hsource, horder, hfront⟩

end Pipeline

end TimestampRelay
