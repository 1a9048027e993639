/-
The sink by itself. Whatever comes into its ring, and whenever others raise the signal or stop in front of it: what it
delivered is at every moment the front of what came in, in order, and it never pops more than is expected. When it
has returned, it has delivered all that it popped, also where the signal was raised in the middle of a burst.
-/
import TimestampRelay.Proofs.Lone.Company

namespace TimestampRelay

namespace Delivery

variable {job : Job} {outbound : Ring UInt64} {upDone : Bool} {s : Delivery} {n : Nat}

/-! ## Popping -/

/-- What was delivered, what is held and what is popped next are no more than what is expected. -/
theorem Sound.popping_le (h : s.Sound job upDone n) (outbound : Ring UInt64) {e : Nat} (he : job.expected = some e) :
    n + s.held.length + s.popping outbound ≤ e := by
  obtain ⟨point, count⟩ := s
  cases point with
  | readSignal =>
    obtain ⟨rfl, hle⟩ := h
    exact hle e he
  | pop want =>
    obtain ⟨rfl, -, hexpected⟩ := h
    exact (Nat.add_le_add_left (outbound.length_popUpTo_le want) count).trans (hexpected e he).2
  | readUpstream =>
    obtain ⟨rfl, hlt⟩ := h
    exact (hlt e he).le
  | recheck =>
    obtain ⟨rfl, -, hlt⟩ := h
    exact (hlt e he).le
  | deliver left size =>
    obtain ⟨hcount, -, -, hle⟩ := h
    show n + left.length + 0 ≤ e
    rw [Nat.add_zero, hcount]
    exact hle e he

end Delivery

namespace World

variable {job : Job} {w : World} {stream : List UInt64} {pops : List Nat} {signal : Bool} {done : PerStage Bool}
  {inbound : Ring Descriptor} {outbound : Ring UInt64} {moves : List Move}

/-! ## The sink among others -/

/-- The sink by itself, `stream` having come into its ring so far, and these having been its pops: all in order, what
came in was delivered, is held, or is in the ring, the first two having been popped. -/
structure LoneSink (job : Job) (stream : List UInt64) (pops : List Nat) (w : World) : Prop where
  atRest : w.outbound.AtRest
  sound :
    w.sink.position.Meets (Delivery.Sound job w.extender.done w.delivered.size)
      (Delivery.Left job w.signal w.extender.done w.delivered.size)
  notDelivered : w.sink.position.last? = none → w.delivered.size = 0
  items : w.delivered.toList ++ w.sink.held Delivery.held ++ w.outbound.toList = stream
  popped : w.delivered.size + (w.sink.held Delivery.held).length = pops.sum
  expected : ∀ e, job.expected = some e → pops.sum ≤ e
  exhausted : w.sink.position.exit? = some .inputExhausted → w.outbound.toList = []

theorem lone_sink (job : Job) (signal : Bool) (done : PerStage Bool) (inbound : Ring Descriptor)
    (hout : outbound.AtRest) : (lone signal done inbound outbound).LoneSink job outbound.toList [] where
  atRest := hout
  sound := trivial
  notDelivered := fun _ => rfl
  items := rfl
  popped := rfl
  expected := fun _ _ => Nat.zero_le _
  exhausted := fun hexit => nomatch hexit

theorem LoneSink.raised (h : w.LoneSink job stream pops) {signal' upDone' : Bool}
    (hsignal : w.signal = true → signal' = true) (hup : w.extender.done = true → upDone' = true) :
    w.sink.position.Meets (Delivery.Sound job upDone' w.delivered.size)
      (Delivery.Left job signal' upDone' w.delivered.size) :=
  h.sound.imp (fun _ hs => hs.mono hup) fun _ _ hl => hl.mono hsignal hup

theorem LoneSink.step (h : w.LoneSink job stream pops) :
    (w.stepSink job).LoneSink job stream (pops ++ World.popped job .sink w (.step .sink)) := by
  have hsum : (pops ++ World.popped job .sink w (.step .sink)).sum =
      w.delivered.size + (w.sink.held Delivery.held).length + w.popping job .sink := by
    rw [List.sum_append, sum_popped, h.popped]
  rcases w.stepSink_cases job with ⟨s, hs, heq⟩ | ⟨hout, heq⟩
  · have hsound := h.sound.of_loop hs
    have hstep := hsound.step h.atRest w.signal
    have hlast := (s.step job w.outbound w.signal w.extender.done w.delivered).2.2.last?_position
    have hheld : w.sink.held Delivery.held = s.held := held_eq _ (by rw [hs]; rfl)
    have hitems := hstep.items
    have hcount := popping_sink_add_length job h.atRest
    have hlengths := congrArg List.length hitems
    simp only [List.length_append, Array.length_toList] at hlengths
    rw [hheld] at hsum
    rw [heq] at hcount ⊢
    dsimp only at hcount
    refine ⟨hstep.atRest, hstep.meets.position, ?_, ?_, ?_, ?_, ?_⟩
    · intro hnone
      cases hlast.symm.trans hnone
    · show _ ++ Worker.held Delivery.held _ ++ _ = stream
      rw [held_eq Delivery.held hlast, hitems, ← hheld]
      exact h.items
    · show (s.step job w.outbound w.signal w.extender.done w.delivered).2.1.size +
        (Worker.held Delivery.held _).length = _
      rw [held_eq Delivery.held hlast, hsum]
      omega
    · intro e he
      rw [hsum, popping_sink hs]
      exact hsound.popping_le w.outbound he
    · intro hexit
      obtain ⟨last, hleft, -⟩ := hstep.meets.left_of_exit? hexit
      exact hstep.exhausted last hleft
  · have hidle : w.popping job .sink = 0 := Position.amount_of_ne hout
    have hheld : (w.sink.advance job .sink Delivery.first w.signal).1.held Delivery.held =
        w.sink.held Delivery.held := Worker.held_advance rfl
    rw [hidle, Nat.add_zero] at hsum
    rw [heq]
    refine ⟨h.atRest, Worker.meets_advance (h.raised Worker.signal_advance id) ?_, ?_, ?_, ?_, ?_, ?_⟩
    · intro hnone
      rw [h.notDelivered hnone]
      exact Delivery.first_sound _ _
    · exact fun hnone => h.notDelivered (Worker.last?_of_advance hnone)
    · show w.delivered.toList ++ Worker.held Delivery.held _ ++ w.outbound.toList = stream
      rw [hheld]
      exact h.items
    · show w.delivered.size + (Worker.held Delivery.held _).length = _
      rw [hheld, hsum]
    · intro e he
      rw [hsum, h.popped]
      exact h.expected e he
    · intro hexit
      rw [Worker.exit?_advance] at hexit
      exact h.exhausted hexit

theorem LoneSink.apply (h : w.LoneSink job stream pops) {move : Move} (hmove : move.isBeside .sink w = true) :
    (w.apply job move).LoneSink job (stream ++ move.intoOutbound w) (pops ++ World.popped job .sink w move) := by
  by_cases hstep : move = .step .sink
  · subst hstep
    rw [Move.intoOutbound, List.append_nil]
    exact h.step
  rw [popped_of_ne hstep, List.append_nil]
  cases move with
  | step actor =>
    obtain rfl : actor = .sink := by simpa [Move.isBeside] using hmove
    exact absurd rfl hstep
  | raiseSignal =>
    rw [Move.intoOutbound, List.append_nil]
    exact { h with sound := h.raised (fun _ => rfl) id }
  | finish other =>
    rw [Move.intoOutbound, List.append_nil]
    cases other with
    | source => exact { h with }
    | extender => exact { h with sound := h.raised id fun _ => rfl }
    | sink => cases hmove
  | offerOutbound items =>
    obtain ⟨-, hrest, -⟩ := h.atRest.pushAll items
    have hlist := h.atRest.toList_pushAll items
    refine { h with atRest := hrest, items := ?_, exhausted := ?_ }
    · show w.delivered.toList ++ w.sink.held Delivery.held ++ (w.outbound.pushAll items).2.toList =
        stream ++ items.take (w.outbound.pushAll items).1
      rw [hlist, ← List.append_assoc, h.items]
    · -- A sink that has run out of input saw that the extender had stopped, which offers nothing then.
      intro hexit
      obtain ⟨last, -, -, hup, -⟩ := h.sound.left_of_exit? hexit
      simp [Move.isBeside, hup] at hmove
  | takeInbound | takeOutbound | offerInbound => cases hmove

theorem admits_loneSink (hout : outbound.AtRest)
    (hmoves : (lone signal done inbound outbound).admits job .sink moves = true) :
    ((lone signal done inbound outbound).applyAll job moves).LoneSink job
      ((lone signal done inbound outbound).outboundStream job moves)
      ((lone signal done inbound outbound).pops job .sink moves) := by
  refine admits_induction ?_ (fun moves move ih hmove => ?_) hmoves
  · rw [outboundStream, collect, List.append_nil]
    exact lone_sink job signal done inbound hout
  · rw [applyAll_concat, outboundStream_concat, pops_concat]
    exact ih.apply hmove

theorem LoneSink.length_eq (h : w.LoneSink job stream pops) :
    (w.delivered.toList ++ w.sink.held Delivery.held).length = pops.sum := by
  rw [List.length_append, Array.length_toList]
  exact h.popped

/-- What was popped is the front of what came into the ring, and the ring holds the rest. -/
theorem LoneSink.split (h : w.LoneSink job stream pops) :
    w.delivered.toList ++ w.sink.held Delivery.held = stream.take pops.sum ∧
      w.outbound.toList = stream.drop pops.sum := by
  rw [← h.items]
  exact ⟨(List.take_left' h.length_eq).symm, (List.drop_left' h.length_eq).symm⟩

/-- What was popped at one moment is the front of what was popped later. -/
theorem LoneSink.popped_grows {v : World} {early : List UInt64} {before : List Nat} (hv : v.LoneSink job early before)
    (h : w.LoneSink job stream pops) (hstream : early <+: stream) (hpops : before.sum ≤ pops.sum) :
    v.delivered.toList ++ v.sink.held Delivery.held <+: w.delivered.toList ++ w.sink.held Delivery.held := by
  refine List.prefix_of_prefix_length_le (?_ : _ <+: stream) ?_ ?_
  · rw [hv.split.1]
    exact (List.take_prefix _ _).trans hstream
  · rw [h.split.1]
    exact List.take_prefix _ _
  · rw [hv.length_eq, h.length_eq]
    exact hpops

/-- What the sink does, whatever its ring holds and whatever others do meanwhile. At every moment it has popped the front
of what came into the ring, no more than is expected, and what it delivered is the front of that. When it has
returned it has delivered all that it popped, also what it held at any moment before, as when the signal was raised;
and it counts just this. It says that it reached what is expected only if this is what it delivered; that its input
is exhausted only behind an extender that has stopped, in front of an empty ring, and having delivered less than what
is expected; and that it was told to stop only under a raised signal. -/
theorem sink_delivers_front (hout : outbound.AtRest)
    (hmoves : (lone signal done inbound outbound).admits job .sink moves = true) :
    let begun := lone signal done inbound outbound
    let w := begun.applyAll job moves
    let stream := begun.outboundStream job moves
    let pops := begun.pops job .sink moves
    w.delivered.toList <+: stream ∧ w.delivered.toList ++ w.sink.held Delivery.held = stream.take pops.sum ∧
      w.outbound.toList = stream.drop pops.sum ∧ (∀ e, job.expected = some e → pops.sum ≤ e) ∧
      ∀ report, w.result? .sink = some (.ok report) →
        report.received = w.delivered.size ∧ report.forwarded = w.delivered.size ∧ w.delivered.size = pops.sum ∧
          report.dropped = 0 ∧
          (∀ early late, moves = early ++ late →
            (begun.applyAll job early).delivered.toList ++ (begun.applyAll job early).sink.held Delivery.held <+:
              w.delivered.toList) ∧
          (report.exit = .expectedReached → job.expected = some w.delivered.size) ∧
          (report.exit = .inputExhausted →
            w.extender.done = true ∧ w.outbound.toList = [] ∧ ∀ e, job.expected = some e → w.delivered.size < e) ∧
          (report.exit = .shutdown → w.signal = true) := by
  intro begun w stream pops
  have h : w.LoneSink job stream pops := admits_loneSink hout hmoves
  obtain ⟨hfront, hrest⟩ := h.split
  have hahead : w.delivered.toList <+: stream := by
    rw [← h.items, List.append_assoc]
    exact List.prefix_append _ _
  refine ⟨hahead, hfront, hrest, h.expected, ?_⟩
  intro report hreport
  obtain ⟨last, exit, hpos, rfl⟩ := returned_of_ended? hreport
  obtain ⟨hcount, hnil, hexit⟩ := h.sound.of_returned hpos
  have hheld : w.sink.held Delivery.held = [] := (held_eq _ (by rw [hpos]; rfl)).trans hnil
  have hpopped : w.delivered.size = pops.sum := by
    have hsum := h.popped
    rw [hheld] at hsum
    exact hsum
  refine ⟨hcount, hcount, hpopped, Nat.sub_self last.count, ?_, ?_, ?_, ?_⟩
  · rintro early late rfl
    have hearly : begun.admits job .sink early = true := by
      rw [admits_append, Bool.and_eq_true] at hmoves
      exact hmoves.1
    have hgrows := (admits_loneSink hout hearly).popped_grows h (outboundStream_grows early late)
      (sum_pops_le .sink early late)
    rw [hheld, List.append_nil] at hgrows
    exact hgrows
  · rintro rfl
    rw [← hcount]
    exact hexit
  · rintro rfl
    rw [← hcount]
    exact ⟨hexit.1, h.exhausted (by rw [hpos]; rfl), hexit.2⟩
  · rintro rfl
    exact hexit

end World

namespace Pipeline

/-- Three values are expected and four come in. After a burst of two the sink pops just one more. The signal is raised
before this one is delivered, and it is delivered all the same. -/
theorem last_burst_delivered_after_signal :
    let job : Job := { pairs.job .willing endless with expected := some 3 }
    let ring := Ring.startingAt ⟨1, by decide⟩ (0 - 1)
    let begun := World.lone false ⟨false, false, false⟩ (.empty ⟨1, by decide⟩) ring
    let early : List World.Move := List.flatten
      [[.step .sink, .offerOutbound [7, 8]], List.replicate 4 (.step .sink), [.offerOutbound [9, 10]],
        List.replicate 2 (.step .sink)]
    let late : List World.Move := .raiseSignal :: List.replicate 4 (.step .sink)
    let v := begun.applyAll job early
    let w := begun.applyAll job (early ++ late)
    let report : StageReport := ⟨.sink, .stopped, .shutdown, 3, 3, 0⟩
    begun.admits job .sink (early ++ late) = true ∧ w.result? .sink = some (.ok report) ∧
      begun.pops job .sink (early ++ late) = [2, 1] ∧ v.delivered.toList = [7, 8] ∧
      v.sink.held Delivery.held = [9] ∧ [7, 8, 9] <+: w.delivered.toList ∧ w.delivered.size = 3 ∧
      w.outbound.toList = [10] := by
  intro job ring begun early late v w report
  have hmoves : begun.admits job .sink (early ++ late) = true := by decide +kernel
  have hreport : w.result? .sink = some (.ok report) := by decide +kernel
  have hpops : begun.pops job .sink (early ++ late) = [2, 1] := by decide +kernel
  have hdelivered : v.delivered.toList = [7, 8] := by decide +kernel
  have hheld : v.sink.held Delivery.held = [9] := by decide +kernel
  have hstream : begun.outboundStream job (early ++ late) = [7, 8, 9, 10] := by decide +kernel
  have hring : ring.AtRest := Ring.startingAt_atRest _ _
  have hfront := World.sink_delivers_front hring hmoves
  have hbegun : World.lone false ⟨false, false, false⟩ (.empty ⟨1, by decide⟩) ring = begun := rfl
  have hw : begun.applyAll job (early ++ late) = w := rfl
  simp only [hbegun, hw] at hfront
  obtain ⟨-, -, hleft, -, hreturned⟩ := hfront
  obtain ⟨-, -, hsize, -, hfinished, -⟩ := hreturned report hreport
  have hburst := hfinished early late rfl
  have hv : begun.applyAll job early = v := rfl
  rw [hv, hdelivered, hheld] at hburst
  rw [hpops] at hsize hleft
  rw [hstream] at hleft
  exact ⟨hmoves, hreport, hpops, hdelivered, hheld, hburst, hsize, hleft⟩

end Pipeline

end TimestampRelay
