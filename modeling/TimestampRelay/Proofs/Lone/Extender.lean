/-
The extender by itself. Whatever comes into the ring in front of it, in however many bursts it pops this, and whenever
others take from the ring behind it, raise the signal or stop: what it popped is the front of what came in, what it
pushed is the front of the values of that, rebuilt one by one, and what it dropped is the rest, which it
had rebuilt from its last pop. It says that its input is exhausted only behind a source that has
stopped, in front of an empty ring, and having dropped nothing.
-/
import TimestampRelay.Proofs.Lone.Company

namespace TimestampRelay

/-- What a burst still holds is the end of what it held. -/
theorem Handoff.held_step_suffix {α : Type} (h : Handoff α) (drainRetries : Nat) (o : Outlet α) :
    (h.step drainRetries o).2.held <:+ h.held := by
  obtain ⟨held, pushed, point⟩ := h
  cases point with
  | attempt | drain left => exact List.drop_suffix _ _
  | readSignal | showDraining | readNeighbour | «over» interrupted => exact List.suffix_rfl

namespace Extension

variable {job : Job} {inbound : Ring Descriptor} {upDone : Bool} {o : Outlet UInt64}

/-! ## Holding -/

theorem length_held_take (s : Extension) (popped : List Descriptor) : (s.take popped).held.length = popped.length := by
  unfold take
  split
  · rename_i hnil
    rw [List.isEmpty_iff.1 hnil]
    rfl
  · rw [Unwrapper.byLanes_eq]
    exact (Unwrapper.length_values _ _).trans (List.length_map _)

theorem length_held_afterPush_le (s : Extension) (burst : Handoff UInt64) :
    (s.afterPush burst).last.held.length ≤ burst.held.length := by
  unfold afterPush
  split
  · dsimp only
    split
    · exact le_rfl
    · exact Nat.zero_le _
  · exact le_rfl

/-- The extender holds no more than it popped last. -/
theorem length_held_step_le (s : Extension) :
    (s.step job inbound upDone o).2.2.last.held.length ≤
      if s.popping job inbound = 0 then s.held.length else s.popping job inbound := by
  obtain ⟨point, unwrapper, tally⟩ := s
  cases point with
  | readSignal | readDownstream | recheck =>
    simp only [Extension.step]
    split <;> exact le_rfl
  | readUpstream =>
    simp only [Extension.step]
    cases upDone <;> exact le_rfl
  | pop =>
    refine (length_held_take ⟨.pop, unwrapper, tally⟩ (inbound.popUpTo job.burst).1).trans_le ?_
    show (inbound.popUpTo job.burst).1.length ≤
      if (inbound.popUpTo job.burst).1.length = 0 then 0 else (inbound.popUpTo job.burst).1.length
    split
    · rename_i hzero
      exact hzero.le
    · exact le_rfl
  | push burst =>
    exact (length_held_afterPush_le _ _).trans (burst.held_step_suffix job.drainRetries o).length_le

end Extension

namespace World

variable {job : Job} {w : World} {stream popped : List Descriptor} {initial : List UInt64} {pops : List Nat}
  {signal : Bool} {done : PerStage Bool} {inbound : Ring Descriptor} {outbound : Ring UInt64} {moves : List Move}

/-! ## What was popped -/

/-- These descriptors were popped: they have been rebuilt one by one, and their values, in order behind what the next
ring held at first, were taken from it, are in it, or are held. -/
def Rebuilt (job : Job) (initial : List UInt64) (popped : List Descriptor) (w : World) : Prop :=
  w.extended = popped.length ∧ w.unwrapper job = job.start.advanceAll (popped.map Descriptor.truncatedTs) ∧
    w.outside.takenOutbound.toList ++ w.outbound.toList ++ w.extender.held Extension.held =
      initial ++ job.start.values (popped.map Descriptor.truncatedTs)

/-- What a step pops from the front of the ring is rebuilt behind what was popped before, wherever the one pop ended
and the next begins. -/
theorem Rebuilt.step (h : w.Rebuilt job initial popped)
    (hsound : w.extender.position.Meets (Extension.Sound job w.signal w.source.done w.sink.done)
      (Extension.Left job w.signal w.source.done w.sink.done))
    (hin : w.inbound.AtRest) (hout : w.outbound.AtRest) :
    ∃ more, more.length = w.popping job .extender ∧
      w.inbound.toList = more ++ (w.stepExtender job).inbound.toList ∧
      (w.stepExtender job).Rebuilt job initial (popped ++ more) := by
  obtain ⟨hextended, hunwrapper, hvalues⟩ := h
  have hfront : ∃ more, w.inbound.toList = more ++ (w.stepExtender job).inbound.toList ∧
      (w.stepExtender job).Rebuilt job initial (popped ++ more) := by
    rcases w.stepExtender_cases job with ⟨s, hs, heq⟩ | ⟨-, heq⟩
    · have hstep := Extension.Sound.step (o := w.extenderOutlet) (hsound.of_loop hs) hin hout
      obtain ⟨more, hmore, hadvanced, hreceived, hitems⟩ := hstep.items
      have hlast := (s.step job w.inbound w.source.done w.extenderOutlet).2.2.last?_position
      have hreceived' : w.extended = s.tally.received := extended_eq (by rw [hs]; rfl)
      have hstate : w.unwrapper job = s.unwrapper := unwrapper_eq (by rw [hs]; rfl)
      have hheld : w.extender.held Extension.held = s.held := held_eq _ (by rw [hs]; rfl)
      rw [heq]
      refine ⟨more, hmore, ?_, ?_, ?_⟩
      · rw [List.length_append, ← hextended, hreceived']
        exact (extended_eq hlast).trans hreceived
      · refine (unwrapper_eq hlast).trans ?_
        rw [List.map_append, Unwrapper.advanceAll_append, ← hunwrapper, hstate]
        exact hadvanced
      · show w.outside.takenOutbound.toList ++
          (s.step job w.inbound w.source.done w.extenderOutlet).2.1.ring.toList ++ Worker.held Extension.held _ = _
        rw [held_eq Extension.held hlast, List.append_assoc, hitems, List.map_append, Unwrapper.values_append,
          ← List.append_assoc initial, ← hvalues, ← hunwrapper, hstate, hheld]
        simp only [List.append_assoc]
        rfl
    · have hheld : (w.extender.advance job .extender (Extension.first job.start) w.signal).1.held Extension.held =
          w.extender.held Extension.held := Worker.held_advance rfl
      rw [heq]
      refine ⟨[], rfl, ?_, ?_, ?_⟩
      · rw [extended_advance, hextended, List.append_nil]
      · rw [unwrapper_advance, hunwrapper, List.append_nil]
      · show w.outside.takenOutbound.toList ++ w.outbound.toList ++ Worker.held Extension.held _ = _
        rw [hheld, hvalues, List.append_nil]
  obtain ⟨more, hmore, hrebuilt⟩ := hfront
  refine ⟨more, ?_, hmore, hrebuilt⟩
  -- The ring has lost as many items as were popped.
  have hcount := popping_extender_add_length job hin
  have hsplit := congrArg List.length hmore
  rw [List.length_append] at hsplit
  omega

/-- What is held comes from the last pop. -/
theorem length_held_stepExtender_le (job : Job) (w : World) :
    ((w.stepExtender job).extender.held Extension.held).length ≤
      if w.popping job .extender = 0 then (w.extender.held Extension.held).length else w.popping job .extender := by
  rcases w.stepExtender_cases job with ⟨s, hs, heq⟩ | ⟨hloop, heq⟩
  · have hlast := (s.step job w.inbound w.source.done w.extenderOutlet).2.2.last?_position
    have hheld : w.extender.held Extension.held = s.held := held_eq _ (by rw [hs]; rfl)
    rw [heq, hheld, popping_extender hs]
    show (Worker.held Extension.held _).length ≤ _
    rw [held_eq Extension.held hlast]
    exact Extension.length_held_step_le s
  · have hheld : (w.extender.advance job .extender (Extension.first job.start) w.signal).1.held Extension.held =
        w.extender.held Extension.held := Worker.held_advance rfl
    have hidle : w.popping job .extender = 0 := Position.amount_of_ne hloop
    rw [heq, hidle, if_pos rfl]
    show (Worker.held Extension.held _).length ≤ _
    rw [hheld]

/-! ## The extender among others -/

/-- The extender by itself, `stream` having come into its ring so far, `initial` having been in the ring behind it at
first, and these having been its pops: what it popped is the front of the stream, and of what it rebuilt of that it
holds no more than it popped last. -/
structure LoneExtender (job : Job) (stream : List Descriptor) (initial : List UInt64) (pops : List Nat) (w : World) :
    Prop where
  inbound : w.inbound.AtRest
  outbound : w.outbound.AtRest
  sound :
    w.extender.position.Meets (Extension.Sound job w.signal w.source.done w.sink.done)
      (Extension.Left job w.signal w.source.done w.sink.done)
  extended : w.extended = pops.sum
  items : ∃ popped, popped ++ w.inbound.toList = stream ∧ w.Rebuilt job initial popped
  heldLe : (w.extender.held Extension.held).length ≤ pops.getLastD 0
  exhausted : w.extender.position.exit? = some .inputExhausted → w.inbound.toList = []

theorem lone_extender (job : Job) (signal : Bool) (done : PerStage Bool) (hin : inbound.AtRest)
    (hout : outbound.AtRest) :
    (lone signal done inbound outbound).LoneExtender job inbound.toList outbound.toList [] where
  inbound := hin
  outbound := hout
  sound := trivial
  extended := rfl
  items := ⟨[], rfl, rfl, rfl, congrArg (· ++ []) (List.nil_append _)⟩
  heldLe := le_rfl
  exhausted := fun hexit => nomatch hexit

theorem LoneExtender.raised (h : w.LoneExtender job stream initial pops) {signal' upDone' downDone' : Bool}
    (hsignal : w.signal = true → signal' = true) (hup : w.source.done = true → upDone' = true)
    (hdown : w.sink.done = true → downDone' = true) :
    w.extender.position.Meets (Extension.Sound job signal' upDone' downDone')
      (Extension.Left job signal' upDone' downDone') :=
  h.sound.imp (fun _ hs => hs.mono hsignal hup hdown) fun _ _ hl => hl.mono hsignal hup hdown

theorem LoneExtender.step (h : w.LoneExtender job stream initial pops) :
    (w.stepExtender job).LoneExtender job stream initial (pops ++ World.popped job .extender w (.step .extender)) := by
  obtain ⟨popped, hstream, hrebuilt⟩ := h.items
  obtain ⟨more, hmore, hsplit, hrebuilt'⟩ := hrebuilt.step h.sound h.inbound h.outbound
  have hextended : (w.stepExtender job).extended =
      (pops ++ World.popped job .extender w (.step .extender)).sum := by
    rw [hrebuilt'.1, List.length_append, hmore, ← hrebuilt.1, h.extended, List.sum_append, sum_popped]
  have hitems : ∃ popped, popped ++ (w.stepExtender job).inbound.toList = stream ∧
      (w.stepExtender job).Rebuilt job initial popped := by
    refine ⟨popped ++ more, ?_, hrebuilt'⟩
    rw [List.append_assoc, ← hsplit, hstream]
  have hheldLe : ((w.stepExtender job).extender.held Extension.held).length ≤
      (pops ++ World.popped job .extender w (.step .extender)).getLastD 0 := by
    rw [getLastD_popped]
    refine (length_held_stepExtender_le job w).trans ?_
    split
    · exact h.heldLe
    · exact le_rfl
  rcases w.stepExtender_cases job with ⟨s, hs, heq⟩ | ⟨-, heq⟩ <;> rw [heq] at hextended hitems hheldLe ⊢
  · have hstep := Extension.Sound.step (o := w.extenderOutlet) (h.sound.of_loop hs) h.inbound h.outbound
    refine ⟨hstep.inbound_atRest, hstep.outbound_atRest, hstep.meets.position, hextended, hitems, hheldLe, ?_⟩
    intro hexit
    obtain ⟨last, hleft, -⟩ := hstep.meets.left_of_exit? hexit
    exact hstep.exhausted last hleft
  · refine ⟨h.inbound, h.outbound, Worker.meets_advance (h.raised Worker.signal_advance id id) ?_, hextended, hitems,
      hheldLe, ?_⟩
    · exact fun _ => Extension.first_sound _ _ _ _ _
    · intro hexit
      rw [Worker.exit?_advance] at hexit
      exact h.exhausted hexit

theorem LoneExtender.apply (h : w.LoneExtender job stream initial pops) {move : Move}
    (hmove : move.isBeside .extender w = true) :
    (w.apply job move).LoneExtender job (stream ++ move.intoInbound w) initial
      (pops ++ World.popped job .extender w move) := by
  by_cases hstep : move = .step .extender
  · subst hstep
    rw [Move.intoInbound, List.append_nil]
    exact h.step
  rw [popped_of_ne hstep, List.append_nil]
  cases move with
  | step actor =>
    obtain rfl : actor = .extender := by simpa [Move.isBeside] using hmove
    exact absurd rfl hstep
  | raiseSignal =>
    rw [Move.intoInbound, List.append_nil]
    exact { h with sound := h.raised (fun _ => rfl) id id }
  | finish other =>
    rw [Move.intoInbound, List.append_nil]
    cases other with
    | source => exact { h with sound := h.raised id (fun _ => rfl) id }
    | extender => cases hmove
    | sink => exact { h with sound := h.raised id id fun _ => rfl }
  | takeOutbound count =>
    obtain ⟨-, hrest, -⟩ := h.outbound.popUpTo count
    obtain ⟨popped, hstream, hextended, hunwrapper, hvalues⟩ := h.items
    rw [Move.intoInbound, List.append_nil]
    refine { h with outbound := hrest, items := ⟨popped, hstream, hextended, hunwrapper, ?_⟩ }
    show (w.outside.takenOutbound.appendList (w.outbound.popUpTo count).1).toList ++
      (w.outbound.popUpTo count).2.toList ++ w.extender.held Extension.held = _
    rw [h.outbound.toList_taken]
    exact hvalues
  | offerInbound items =>
    obtain ⟨-, hrest, -⟩ := h.inbound.pushAll items
    have hlist := h.inbound.toList_pushAll items
    obtain ⟨popped, hstream, hrebuilt⟩ := h.items
    refine { h with inbound := hrest, items := ⟨popped, ?_, hrebuilt⟩, exhausted := ?_ }
    · show popped ++ (w.inbound.pushAll items).2.toList = stream ++ items.take (w.inbound.pushAll items).1
      rw [hlist, ← List.append_assoc, hstream]
    · -- An extender that has run out of input saw that the source had stopped, which offers nothing then.
      intro hexit
      obtain ⟨last, -, -, hup, -⟩ := h.sound.left_of_exit? hexit
      simp [Move.isBeside, hup] at hmove
  | takeInbound | offerOutbound => cases hmove

theorem admits_loneExtender (hin : inbound.AtRest) (hout : outbound.AtRest)
    (hmoves : (lone signal done inbound outbound).admits job .extender moves = true) :
    ((lone signal done inbound outbound).applyAll job moves).LoneExtender job
      ((lone signal done inbound outbound).inboundStream job moves) outbound.toList
      ((lone signal done inbound outbound).pops job .extender moves) := by
  refine admits_induction ?_ (fun moves move ih hmove => ?_) hmoves
  · rw [inboundStream, collect, List.append_nil]
    exact lone_extender job signal done hin hout
  · rw [applyAll_concat, inboundStream_concat, pops_concat]
    exact ih.apply hmove

/-- What the extender has done when it has returned, whatever it starts from, whatever the rings hold, and whatever
others do meanwhile. What it received it popped, in so many bursts as there were, and this is the front of what came
into the ring. It pushed the front of the values of that, rebuilt one by one, in order and as much as it reports.
What it dropped is the rest, a burst at most, and the end of what it had rebuilt from its last pop. It
says that its input is exhausted only behind a source that has stopped, in front of an empty ring, and having
dropped nothing. -/
theorem extender_pushes_front (hin : inbound.AtRest) (hout : outbound.AtRest)
    (hmoves : (lone signal done inbound outbound).admits job .extender moves = true) :
    let w := (lone signal done inbound outbound).applyAll job moves
    let stream := (lone signal done inbound outbound).inboundStream job moves
    let pops := (lone signal done inbound outbound).pops job .extender moves
    ∀ report, w.result? .extender = some (.ok report) →
      let popped := stream.take report.received
      let values := job.start.values (popped.map Descriptor.truncatedTs)
      report.received = pops.sum ∧ (∀ n ∈ pops, n ≤ job.burst) ∧ popped.length = report.received ∧
        popped ++ w.inbound.toList = stream ∧
        w.outside.takenOutbound.toList ++ w.outbound.toList = outbound.toList ++ values.take report.forwarded ∧
        w.extender.held Extension.held = values.drop report.forwarded ∧
        report.forwarded + report.dropped = report.received ∧ report.dropped ≤ job.burst ∧
        values.drop report.forwarded <:+ values.drop (report.received - pops.getLastD 0) ∧
        (report.exit = .inputExhausted → w.source.done = true ∧ w.inbound.toList = [] ∧ report.dropped = 0) := by
  intro w stream pops report hreport popped values
  have h : w.LoneExtender job stream outbound.toList pops := admits_loneExtender hin hout hmoves
  obtain ⟨last, exit, hpos, rfl⟩ := returned_of_ended? hreport
  obtain ⟨hcount, hle, hexit⟩ := h.sound.of_returned hpos
  have hheld : w.extender.held Extension.held = last.held := held_eq _ (by rw [hpos]; rfl)
  have hextended : w.extended = last.tally.received := extended_eq (by rw [hpos]; rfl)
  have hdropped : (last.tally.report .extender exit).dropped = last.held.length := Tally.dropped_report hcount _ _
  obtain ⟨front, hstream, hlength, -, hvalues⟩ := h.items
  replace hlength : front.length = last.tally.received := hlength.symm.trans hextended
  have hfront : popped = front := by
    show stream.take last.tally.received = front
    rw [← hstream, List.take_left' hlength]
  have hvaluesLength : values.length = last.tally.received := by
    rw [Unwrapper.length_values, List.length_map, hfront, hlength]
  rw [← hfront] at hlength hstream hvalues
  obtain ⟨hpushed, hrest⟩ := Handoff.front_handed_on hvalues (hheld ▸ hcount.trans hvaluesLength.symm)
  refine ⟨hextended.symm.trans h.extended, fun n hn => le_burst_of_mem_pops hn, hlength, hstream, hpushed, hrest, ?_,
    ?_, ?_, ?_⟩
  · rw [hdropped]
    exact hcount
  · rw [hdropped]
    exact hle
  · -- No more is held than was popped last.
    have hheldLe : last.held.length ≤ pops.getLastD 0 := hheld ▸ h.heldLe
    show values.drop last.tally.forwarded <:+ values.drop (last.tally.received - pops.getLastD 0)
    have hfrom : last.tally.received - pops.getLastD 0 ≤ last.tally.forwarded := by omega
    rw [← Nat.add_sub_cancel' hfrom, ← List.drop_drop]
    exact List.drop_suffix _ _
  · rintro rfl
    refine ⟨hexit.1, h.exhausted (by rw [hpos]; rfl), ?_⟩
    rw [hdropped, hexit.2]
    rfl

end World

namespace Pipeline

/-- Four descriptors come in and are popped in two bursts. The signal is raised when the outbound ring has no room for
the last value, which is dropped. -/
theorem second_burst_left_behind :
    let job := pairs.job .willing endless
    let ring := Ring.startingAt ⟨2, by decide⟩ (0 - 1)
    let next := Ring.startingAt ⟨1, by decide⟩ (0 - 1)
    let begun := World.lone false ⟨false, false, false⟩ ring next
    let moves : List World.Move := List.flatten
      [[.offerInbound [⟨0, 0, 250⟩, ⟨0, 0, 5⟩]], List.replicate 5 (.step .extender),
        [.offerInbound [⟨0, 0, 10⟩, ⟨0, 0, 20⟩]], List.replicate 6 (.step .extender), [.takeOutbound 1],
        List.replicate 2 (.step .extender), [.raiseSignal], List.replicate 4 (.step .extender)]
    let w := begun.applyAll job moves
    let report : StageReport := ⟨.extender, .stopped, .shutdown, 4, 3, 1⟩
    begun.admits job .extender moves = true ∧ w.result? .extender = some (.ok report) ∧
      begun.pops job .extender moves = [2, 2] ∧
      w.outside.takenOutbound.toList ++ w.outbound.toList = [250, 261, 266] ∧
      w.extender.held Extension.held = [276] := by
  intro job ring next begun moves w report
  have hmoves : begun.admits job .extender moves = true := by decide +kernel
  have hreport : w.result? .extender = some (.ok report) := by decide +kernel
  have hring : ring.AtRest := Ring.startingAt_atRest _ _
  have hnext : next.AtRest := Ring.startingAt_atRest _ _
  have hpush := World.extender_pushes_front hring hnext hmoves
  have hbegun : World.lone false ⟨false, false, false⟩ ring next = begun := rfl
  have hw : begun.applyAll job moves = w := rfl
  rw [hbegun, hw] at hpush
  obtain ⟨-, -, -, -, hpushed, hheld, -⟩ := hpush report hreport
  have hvalues : job.start.values (((begun.inboundStream job moves).take 4).map Descriptor.truncatedTs) =
      [250, 261, 266, 276] := by decide +kernel
  have hnil : next.toList = [] := by decide +kernel
  have hreceived : report.received = 4 := rfl
  rw [hreceived, hvalues, hnil] at hpushed
  rw [hreceived, hvalues] at hheld
  exact ⟨hmoves, hreport, by decide +kernel, hpushed, hheld⟩

end Pipeline

end TimestampRelay
