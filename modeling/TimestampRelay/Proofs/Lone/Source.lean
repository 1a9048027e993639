/-
The source by itself. Whatever feed it is given, also one that would go on behind its end, and whenever others take from
its ring, raise the signal or stop behind it: what it pushed is the front of what the feed answered with, in order,
and what it dropped is the rest. It never calls a feed that has ended, it counts whole bursts until then, and it says
that its input is exhausted exactly when the feed has ended and it dropped nothing.
-/
import TimestampRelay.Proofs.Lone.Company

namespace TimestampRelay

/-! ## The end of the feed -/

namespace Workload

variable {load : Workload} {calls : Nat}

/-- One of the first calls was answered with the end. -/
def Ended (load : Workload) (calls : Nat) : Prop :=
  ∃ call < calls, load.feed call = .ended

theorem Fed.ne_ended (h : load.Fed calls) {call : Nat} (hcall : call < calls) : load.feed call ≠ .ended := by
  obtain ⟨d, hd⟩ := h call hcall
  rw [hd]
  rintro ⟨⟩

theorem Fed.not_ended (h : load.Fed calls) : ¬load.Ended calls := by
  rintro ⟨call, hcall, hended⟩
  exact h.ne_ended hcall hended

theorem Closed.ended (h : load.Closed calls) : load.Ended calls := by
  obtain ⟨n, rfl, -, hended⟩ := h
  exact ⟨n, Nat.lt_succ_self n, hended⟩

/-- The end of the feed was the answer to the last call. -/
theorem Closed.eq_of_ended (h : load.Closed calls) {call : Nat} (hcall : call < calls)
    (hended : load.feed call = .ended) : calls = call + 1 := by
  obtain ⟨n, rfl, hfed, -⟩ := h
  rcases Nat.lt_succ_iff_lt_or_eq.1 hcall with hlt | rfl
  · exact absurd hended (hfed.ne_ended hlt)
  · rfl

theorem Closed.length_answered (h : load.Closed calls) : calls = (load.answered calls).length + 1 := by
  obtain ⟨n, rfl, -⟩ := id h
  obtain ⟨hfed, -, heq⟩ := h.answered_eq
  rw [heq, hfed.length_answered]

end Workload

/-! ## Whole bursts -/

namespace Intake

variable {job : Job} {o : Outlet Descriptor} {calls : Nat} {s : Intake}

/-- The source in its loop has received whole bursts, but for the last one. -/
def Whole (job : Job) (s : Intake) : Prop :=
  match s.point with
  | .readSignal | .readNeighbour | .pull _ => job.burst ∣ s.tally.received
  | .push _ isLast => isLast = false → job.burst ∣ s.tally.received

/-- The source behind its loop has received whole bursts unless the feed has ended; and if it left its loop for another
reason than that, it still held something. -/
def LeftWhole (job : Job) (calls : Nat) (last : Intake) (exit : ExitReason) : Prop :=
  (job.workload.Fed calls → job.burst ∣ last.tally.received) ∧
    (exit ≠ .inputExhausted → job.workload.Closed calls → last.held ≠ [])

theorem leftWhole_of_fed {last : Intake} {exit : ExitReason} (hfed : job.workload.Fed calls)
    (hwhole : job.burst ∣ last.tally.received) : last.LeftWhole job calls exit :=
  ⟨fun _ => hwhole, fun _ hclosed => absurd hclosed.ended hfed.not_ended⟩

theorem gather_whole {held : Array Descriptor} {tally : Tally} (hwhole : job.burst ∣ tally.received)
    (hle : held.size ≤ job.burst) :
    (gather job.burst held tally).Meets (Whole job) (LeftWhole job calls) := by
  unfold gather
  split
  · exact hwhole
  · rename_i hge
    split
    · exact ⟨fun _ => hwhole, fun hne => absurd rfl hne⟩
    · -- A burst that is handed on before the feed ends is complete.
      have hsize : held.size = job.burst := by omega
      intro _
      show job.burst ∣ tally.received + held.size
      rw [hsize]
      exact Nat.dvd_add hwhole (Nat.dvd_refl _)

theorem close_whole {held : Array Descriptor} {tally : Tally} (hwhole : job.burst ∣ tally.received) :
    (close held tally).Meets (Whole job) (LeftWhole job calls) := by
  unfold close
  split
  · exact ⟨fun _ => hwhole, fun hne => absurd rfl hne⟩
  · rintro ⟨⟩

theorem afterPush_whole {burst : Handoff Descriptor} {isLast signal downDone : Bool} {tally : Tally}
    (hburst : burst.Sound signal downDone) (hfeed : job.workload.Fed calls → isLast = false)
    (hwhole : isLast = false → job.burst ∣ tally.received) :
    (afterPush burst isLast tally).Meets (Whole job) (LeftWhole job calls) := by
  obtain ⟨held, pushed, point⟩ := burst
  cases point with
  | «over» interrupted =>
    cases interrupted with
    | none =>
      cases isLast with
      | true => exact ⟨fun hfed => hwhole (hfeed hfed), fun hne => absurd rfl hne⟩
      | false => exact hwhole rfl
    | some reason =>
      refine ⟨fun hfed => hwhole (hfeed hfed), fun _ _ => ?_⟩
      cases reason with
      | shutdown | downstreamStopped => exact hburst.1
      | inputExhausted | expectedReached => exact hburst.elim
  | attempt | readSignal | showDraining | drain | readNeighbour => exact hwhole

theorem Sound.step_whole (hs : s.Sound job o.signal o.neighbourDone calls) (hr : o.ring.AtRest)
    (hwhole : s.Whole job) :
    (s.step job o calls).2.2.Meets (Whole job) (LeftWhole job (s.step job o calls).2.1) := by
  obtain ⟨point, tally⟩ := s
  cases point with
  | readSignal =>
    simp only [Intake.step]
    split
    · exact leftWhole_of_fed hs.2.1 hwhole
    · exact hwhole
  | readNeighbour =>
    simp only [Intake.step]
    split
    · exact leftWhole_of_fed hs.2.1 hwhole
    · exact gather_whole hwhole (Nat.zero_le _)
  | pull held =>
    obtain ⟨-, -, -, hlt⟩ := hs
    simp only [Intake.step]
    cases job.workload.feed calls with
    | event d => exact gather_whole hwhole (by rw [Array.size_push]; exact hlt)
    | ended => exact close_whole hwhole
    | broken => trivial
  | push burst isLast =>
    obtain ⟨-, hfeed, hburst, -⟩ := hs
    refine afterPush_whole (hburst.step hr job.drainRetries).sound (fun hfed => ?_) hwhole
    cases isLast with
    | false => rfl
    | true => exact absurd (Workload.Closed.ended hfeed) hfed.not_ended

end Intake

namespace World

variable {job : Job} {w : World} {initial : List Descriptor} {signal : Bool} {done : PerStage Bool}
  {inbound : Ring Descriptor} {outbound : Ring UInt64} {moves : List Move}

/-! ## The source among others -/

/-- The source by itself, its ring having held `initial` at first: all in order, what it pulled was taken from the ring,
is in it, or is held. -/
structure LoneSource (job : Job) (initial : List Descriptor) (w : World) : Prop where
  atRest : w.inbound.AtRest
  sound :
    w.source.position.Meets (Intake.Sound job w.signal w.extender.done w.calls)
      (Intake.Left job w.signal w.extender.done w.calls)
  whole : w.source.position.Meets (Intake.Whole job) (Intake.LeftWhole job w.calls)
  notCalled : w.source.position.last? = none → w.calls = 0
  items :
    w.outside.takenInbound.toList ++ w.inbound.toList ++ w.source.held Intake.held =
      initial ++ job.workload.answered w.calls

theorem lone_source (job : Job) (signal : Bool) (done : PerStage Bool) (hin : inbound.AtRest)
    (outbound : Ring UInt64) : (lone signal done inbound outbound).LoneSource job inbound.toList :=
  ⟨hin, trivial, trivial, fun _ => rfl, congrArg (· ++ []) (List.nil_append _)⟩

theorem LoneSource.raised (h : w.LoneSource job initial) {signal' downDone' : Bool}
    (hsignal : w.signal = true → signal' = true) (hdone : w.extender.done = true → downDone' = true) :
    w.source.position.Meets (Intake.Sound job signal' downDone' w.calls)
      (Intake.Left job signal' downDone' w.calls) :=
  h.sound.imp (fun _ hs => hs.mono hsignal hdone) fun _ _ hl => hl.mono hsignal hdone

theorem LoneSource.step (h : w.LoneSource job initial) (hburst : 0 < job.burst) :
    (w.stepSource job).LoneSource job initial := by
  rcases w.stepSource_cases job with ⟨s, hs, heq⟩ | ⟨-, heq⟩
  · have hsound : s.Sound job w.sourceOutlet.signal w.sourceOutlet.neighbourDone w.calls := h.sound.of_loop hs
    have hstep := hsound.step hburst h.atRest
    have hwhole := hsound.step_whole h.atRest (h.whole.of_loop hs)
    obtain ⟨more, hanswered, hitems⟩ := hstep.items
    have hlast := (s.step job w.sourceOutlet w.calls).2.2.last?_position
    have hheld : w.source.held Intake.held = s.held := held_eq _ (by rw [hs]; rfl)
    rw [heq]
    refine ⟨hstep.atRest, hstep.meets.position, hwhole.position, ?_, ?_⟩
    · intro hnone
      cases hlast.symm.trans hnone
    · show w.outside.takenInbound.toList ++ (s.step job w.sourceOutlet w.calls).1.ring.toList ++
        Worker.held Intake.held _ = initial ++ job.workload.answered (s.step job w.sourceOutlet w.calls).2.1
      rw [held_eq Intake.held hlast, hanswered, ← List.append_assoc initial, ← h.items, hheld, List.append_assoc,
        hitems]
      simp only [List.append_assoc]
      rfl
  · have hheld : (w.source.advance job .source Intake.first w.signal).1.held Intake.held =
        w.source.held Intake.held := Worker.held_advance rfl
    rw [heq]
    refine ⟨h.atRest, Worker.meets_advance (h.raised Worker.signal_advance id) ?_, Worker.meets_advance h.whole ?_,
      ?_, ?_⟩
    · intro hnone
      rw [h.notCalled hnone]
      exact Intake.first_sound _ _ _
    · exact fun _ => Nat.dvd_zero _
    · exact fun hnone => h.notCalled (Worker.last?_of_advance hnone)
    · show _ ++ w.inbound.toList ++ Worker.held Intake.held _ = _
      rw [hheld]
      exact h.items

theorem LoneSource.apply (h : w.LoneSource job initial) (hburst : 0 < job.burst) {move : Move}
    (hmove : move.isBeside .source w = true) : (w.apply job move).LoneSource job initial := by
  cases move with
  | step actor =>
    obtain rfl : actor = .source := by simpa [Move.isBeside] using hmove
    exact h.step hburst
  | raiseSignal => exact { h with sound := h.raised (fun _ => rfl) id }
  | finish other =>
    cases other with
    | source => cases hmove
    | extender => exact { h with sound := h.raised id fun _ => rfl }
    | sink => exact { h with }
  | takeInbound count =>
    obtain ⟨-, hrest, -⟩ := h.atRest.popUpTo count
    refine { h with atRest := hrest, items := ?_ }
    show (w.outside.takenInbound.appendList (w.inbound.popUpTo count).1).toList ++
      (w.inbound.popUpTo count).2.toList ++ w.source.held Intake.held = _
    rw [h.atRest.toList_taken]
    exact h.items
  | takeOutbound | offerInbound | offerOutbound => cases hmove

theorem admits_loneSource (hburst : 0 < job.burst) (hin : inbound.AtRest)
    (hmoves : (lone signal done inbound outbound).admits job .source moves = true) :
    ((lone signal done inbound outbound).applyAll job moves).LoneSource job inbound.toList := by
  refine admits_induction (lone_source job signal done hin outbound) (fun moves move ih hmove => ?_) hmoves
  rw [applyAll_concat]
  exact ih.apply hburst hmove

/-- What the source has done when it has returned, whatever its feed answers and its ring holds, and whatever others do
meanwhile. It pushed the front of what the feed answered with, in order and as much as it reports, and what it
dropped is the rest, a burst at most. It counts all that the feed answered with. If the feed ended, this was the
answer to the last call; if it did not, whole bursts were received. It says that the input is exhausted
exactly when the feed has ended and nothing was dropped. -/
theorem source_pushes_front (hburst : 0 < job.burst) (hin : inbound.AtRest)
    (hmoves : (lone signal done inbound outbound).admits job .source moves = true) :
    let w := (lone signal done inbound outbound).applyAll job moves
    let yielded := job.workload.answered w.calls
    ∀ report, w.result? .source = some (.ok report) →
      w.outside.takenInbound.toList ++ w.inbound.toList = inbound.toList ++ yielded.take report.forwarded ∧
        w.source.held Intake.held = yielded.drop report.forwarded ∧ report.received = yielded.length ∧
        report.forwarded + report.dropped = report.received ∧ report.dropped ≤ job.burst ∧
        (∀ call < w.calls, job.workload.feed call = .ended → w.calls = call + 1) ∧
        (job.workload.Ended w.calls → w.calls = report.received + 1) ∧
        (¬job.workload.Ended w.calls → w.calls = report.received ∧ job.burst ∣ report.received) ∧
        (report.exit = .inputExhausted ↔ job.workload.Ended w.calls ∧ report.dropped = 0) := by
  intro w yielded report hreport
  have h : w.LoneSource job inbound.toList := admits_loneSource hburst hin hmoves
  obtain ⟨last, exit, hpos, rfl⟩ := returned_of_ended? hreport
  have hleft := h.sound.of_returned hpos
  obtain ⟨hwhole, hkept⟩ := h.whole.of_returned hpos
  have hfeed := hleft.fed_or_closed
  obtain ⟨hreceived, hcount, hle, hexit⟩ := hleft
  have hheld : w.source.held Intake.held = last.held := held_eq _ (by rw [hpos]; rfl)
  have hdropped : (last.tally.report .source exit).dropped = last.held.length := Tally.dropped_report hcount _ _
  have hfed : ¬job.workload.Ended w.calls → job.workload.Fed w.calls := fun hnot =>
    hfeed.resolve_right fun hclosed => hnot hclosed.ended
  have hclosed : job.workload.Ended w.calls → job.workload.Closed w.calls := fun hended =>
    hfeed.resolve_left fun hfed => hfed.not_ended hended
  obtain ⟨hpushed, hrest⟩ := Handoff.front_handed_on h.items (hheld ▸ hcount.trans hreceived)
  refine ⟨hpushed, hrest, hreceived, ?_, ?_, ?_, ?_, ?_, ?_⟩
  · rw [hdropped]
    exact hcount
  · rw [hdropped]
    exact hle
  · intro call hcall hended
    exact (hclosed ⟨call, hcall, hended⟩).eq_of_ended hcall hended
  · intro hended
    exact (hclosed hended).length_answered.trans (congrArg (· + 1) hreceived.symm)
  · intro hnot
    exact ⟨(hfed hnot).length_answered.symm.trans hreceived.symm, hwhole (hfed hnot)⟩
  · rw [hdropped]
    constructor
    · rintro rfl
      exact ⟨hexit.1.ended, congrArg List.length hexit.2⟩
    · rintro ⟨hended, hnone⟩
      by_contra hne
      exact hkept hne (hclosed hended) (List.length_eq_zero_iff.1 hnone)

end World

namespace Pipeline

/-- Three samples, the end, and one sample more. -/
def unfused : Workload where
  feed := Pull.ofEvents #[some ⟨0, 0, 7⟩, some ⟨0, 0, 8⟩, some ⟨0, 0, 9⟩, none, some ⟨0, 0, 10⟩]
  breaksAt := fun _ => false

/-- The signal is raised when the feed has ended and the last sample waits in front of a full ring. The feed is not
called again, the sample is dropped, and the source does not say that its input is exhausted. -/
theorem unfused_feed_left_at_its_end :
    let job := pairs.job .willing unfused
    let ring := Ring.startingAt ⟨1, by decide⟩ (0 - 1)
    let begun := World.lone false ⟨false, false, false⟩ ring (.empty ⟨1, by decide⟩)
    let moves : List World.Move := List.flatten
      [List.replicate 12 (.step .source), [.raiseSignal], List.replicate 7 (.step .source), [.takeInbound 1]]
    let w := begun.applyAll job moves
    let report : StageReport := ⟨.source, .stopped, .shutdown, 3, 2, 1⟩
    begun.admits job .source moves = true ∧ w.result? .source = some (.ok report) ∧ job.workload.Ended w.calls ∧
      w.calls = 4 ∧ w.outside.takenInbound.toList ++ w.inbound.toList = [⟨0, 0, 7⟩, ⟨0, 0, 8⟩] ∧
      w.source.held Intake.held = [⟨0, 0, 9⟩] := by
  intro job ring begun moves w report
  have hmoves : begun.admits job .source moves = true := by decide +kernel
  have hreport : w.result? .source = some (.ok report) := by decide +kernel
  have hcalls : 3 < w.calls := by decide +kernel
  have hended : job.workload.Ended w.calls := ⟨3, hcalls, rfl⟩
  have hring : ring.AtRest := Ring.startingAt_atRest _ _
  have hburst : 0 < job.burst := Nat.two_pos
  have hpush := World.source_pushes_front hburst hring hmoves
  have hw : (World.lone false ⟨false, false, false⟩ ring (.empty ⟨1, by decide⟩)).applyAll job moves = w := rfl
  rw [hw] at hpush
  obtain ⟨hpushed, hheld, -, -, -, hlast, -⟩ := hpush report hreport
  have hyielded : job.workload.answered w.calls = [⟨0, 0, 7⟩, ⟨0, 0, 8⟩, ⟨0, 0, 9⟩] := by decide +kernel
  have hnil : ring.toList = [] := by decide +kernel
  rw [hyielded] at hpushed hheld
  rw [hnil] at hpushed
  exact ⟨hmoves, hreport, hended, hlast 3 hcalls rfl, hpushed, hheld⟩

end Pipeline

end TimestampRelay
