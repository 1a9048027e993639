/-
How runs come to their end. Under a raised signal every step of a stage brings it closer to its end, whatever it
finds and whatever the others do. So once each of them has made so many steps that the configuration sets a limit
to, all have ended.
-/
import TimestampRelay.Proofs.Run.Progress
import TimestampRelay.Proofs.Run.Reaction

namespace TimestampRelay

/-! ## Bursts -/

namespace Handoff

variable {α : Type} {o : Outlet α} {h : Handoff α} {drainRetries : Nat}

/-- Steps that a burst can still take under a raised signal. In front of a full ring it is on its way to the look at
the signal, and from there through the attempts that are left. -/
def stepsLeft (drainRetries : Nat) (h : Handoff α) : Nat :=
  match h.point with
  | .readNeighbour => h.held.length + drainRetries + 5
  | .attempt => h.held.length + drainRetries + 4
  | .readSignal => drainRetries + 3
  | .showDraining => drainRetries + 2
  | .drain left => left + 1
  | .over _ => 0

theorem start_stepsLeft_le (drainRetries : Nat) (items : List α) :
    (start items).stepsLeft drainRetries ≤ items.length + drainRetries + 4 := by
  cases items with
  | nil => exact Nat.zero_le _
  | cons => exact le_rfl

theorem Pending.stepsLeft_le (hp : h.Pending drainRetries) :
    h.stepsLeft drainRetries ≤ h.held.length + drainRetries + 5 := by
  obtain ⟨held, pushed, point⟩ := h
  cases point with
  | attempt | readSignal | showDraining | readNeighbour =>
    simp only [stepsLeft]
    omega
  | drain left =>
    have hle : left ≤ drainRetries := hp
    simp only [stepsLeft]
    omega
  | «over» interrupted => exact hp.elim

/-- An attempt leaves fewer items to push, or leads to the look at the signal. -/
theorem afterAttempt_stepsLeft_lt (n pushed : Nat) (held : List α) :
    stepsLeft drainRetries ⟨held.drop n, pushed, afterAttempt n (held.drop n)⟩ <
      held.length + drainRetries + 4 := by
  unfold afterAttempt
  split
  · exact Nat.succ_pos _
  · rename_i hne
    rw [List.isEmpty_iff, List.drop_eq_nil_iff, Nat.not_le] at hne
    split
    · show drainRetries + 3 < _
      omega
    · show (held.drop n).length + drainRetries + 4 < _
      rw [List.length_drop]
      omega

theorem afterDrain_stepsLeft_lt (left pushed : Nat) (held : List α) :
    stepsLeft drainRetries ⟨held, pushed, afterDrain (left - 1) held⟩ < left + 1 := by
  unfold afterDrain
  split
  · exact Nat.succ_pos _
  · split
    · exact Nat.succ_pos _
    · show left - 1 + 1 < left + 1
      omega

/-- Under a raised signal every step of a burst that is not over leaves fewer. -/
theorem stepsLeft_step_lt (hsignal : o.signal = true)
    (hgo : ∀ interrupted, (h.step drainRetries o).2.point ≠ .over interrupted) :
    (h.step drainRetries o).2.stepsLeft drainRetries < h.stepsLeft drainRetries := by
  obtain ⟨held, pushed, point⟩ := h
  cases point with
  | attempt => exact afterAttempt_stepsLeft_lt _ _ _
  | readSignal =>
    simp only [Handoff.step, hsignal]
    exact Nat.lt_succ_self _
  | showDraining => exact afterDrain_stepsLeft_lt (drainRetries + 1) _ _
  | drain left => exact afterDrain_stepsLeft_lt left _ _
  | readNeighbour =>
    simp only [Handoff.step]
    split
    · exact Nat.succ_pos _
    · exact Nat.lt_succ_self _
  | «over» interrupted => exact absurd rfl (hgo interrupted)

end Handoff

/-! ## The loops -/

namespace Intake

variable {job : Job} {o : Outlet Descriptor} {s : Intake} {burst drainRetries limit : Nat}

/-- Steps that the source can still make under a raised signal. A burst that it has begun is completed first. -/
def stepsLeft (burst drainRetries : Nat) (s : Intake) : Nat :=
  match s.point with
  | .readNeighbour => 2 * burst + drainRetries + 9
  | .pull held => held.size + 2 * (burst - held.size) + drainRetries + 8
  | .push items _ => items.stepsLeft drainRetries + 2
  | .readSignal => 1

theorem Sound.stepsLeft_le {signal downDone : Bool} {calls : Nat} (hs : s.Sound job signal downDone calls)
    (hp : s.Poised job.drainRetries) :
    s.stepsLeft job.burst job.drainRetries ≤ 2 * job.burst + job.drainRetries + 9 := by
  obtain ⟨point, tally⟩ := s
  cases point with
  | readSignal | readNeighbour =>
    simp only [stepsLeft]
    omega
  | pull held =>
    obtain ⟨-, -, -, hlt⟩ := hs
    simp only [stepsLeft]
    omega
  | push items isLast =>
    obtain ⟨-, -, -, -, hle⟩ := hs
    have hpending := Handoff.Pending.stepsLeft_le hp
    simp only [stepsLeft]
    omega

theorem handOn_stepsLeft_lt (held : Array Descriptor) (isLast : Bool) (tally : Tally) :
    (handOn held isLast tally).stepsLeft burst drainRetries < held.size + drainRetries + 7 :=
  Nat.add_lt_add_right (Nat.lt_succ_of_le (Handoff.start_stepsLeft_le drainRetries held.toList)) 2

theorem gather_below (held : Array Descriptor) (tally : Tally)
    (hpull : held.size < burst → held.size + 2 * (burst - held.size) + drainRetries + 8 < limit)
    (hpush : held.size + drainRetries + 7 ≤ limit) :
    (gather burst held tally).Below (stepsLeft burst drainRetries) limit := by
  unfold gather
  split
  · rename_i hlt
    exact hpull hlt
  · split
    · trivial
    · exact (handOn_stepsLeft_lt held false tally).trans_le hpush

theorem close_below (held : Array Descriptor) (tally : Tally) (hpush : held.size + drainRetries + 7 ≤ limit) :
    (close held tally).Below (stepsLeft burst drainRetries) limit := by
  unfold close
  split
  · trivial
  · exact (handOn_stepsLeft_lt held true tally).trans_le hpush

theorem afterPush_below {items : Handoff Descriptor} (isLast : Bool) (tally : Tally) (hlimit : 1 < limit)
    (hgo : (∀ interrupted, items.point ≠ .over interrupted) → items.stepsLeft drainRetries + 2 < limit) :
    (afterPush items isLast tally).Below (stepsLeft burst drainRetries) limit := by
  unfold afterPush
  split
  · split
    · trivial
    · split
      · trivial
      · exact hlimit
  · rename_i hnot
    exact hgo hnot

theorem step_below (job : Job) (hsignal : o.signal = true) (calls : Nat) (s : Intake) :
    (s.step job o calls).2.2.Below (stepsLeft job.burst job.drainRetries)
      (s.stepsLeft job.burst job.drainRetries) := by
  obtain ⟨point, tally⟩ := s
  cases point with
  | readSignal =>
    simp only [Intake.step, hsignal]
    trivial
  | readNeighbour =>
    simp only [Intake.step, stepsLeft]
    split
    · trivial
    · refine gather_below #[] tally (fun _ => ?_) ?_ <;> simp only [Array.size_empty] <;> omega
  | pull held =>
    simp only [Intake.step, stepsLeft]
    split
    · -- One event more is one less to pull, and the burst that it completes takes fewer steps to push.
      rename_i d _
      have hsize : (held.push d).size = held.size + 1 := Array.size_push d
      refine gather_below (held.push d) tally (fun hlt => ?_) ?_ <;> omega
    · refine close_below held tally ?_
      omega
    · trivial
  | push items isLast =>
    refine afterPush_below isLast tally (Nat.lt_add_left _ Nat.one_lt_two) fun hgo => ?_
    exact Nat.add_lt_add_right (Handoff.stepsLeft_step_lt hsignal hgo) 2

end Intake

namespace Extension

variable {job : Job} {inbound : Ring Descriptor} {upDone : Bool} {o : Outlet UInt64} {s : Extension}
  {burst drainRetries limit : Nat}

/-- Steps that the extender can still make under a raised signal. -/
def stepsLeft (burst drainRetries : Nat) (s : Extension) : Nat :=
  match s.point with
  | .readDownstream => burst + drainRetries + 8
  | .pop => burst + drainRetries + 7
  | .push items => items.stepsLeft drainRetries + 2
  | .readUpstream => 3
  | .recheck => 2
  | .readSignal => 1

theorem Sound.stepsLeft_le {signal downDone : Bool} (hs : s.Sound job signal upDone downDone)
    (hp : s.Poised job.drainRetries) :
    s.stepsLeft job.burst job.drainRetries ≤ 2 * job.burst + job.drainRetries + 9 := by
  obtain ⟨point, unwrapper, tally⟩ := s
  cases point with
  | readSignal | readDownstream | pop | readUpstream | recheck =>
    simp only [stepsLeft]
    omega
  | push items =>
    obtain ⟨-, -, hle⟩ := hs
    have hpending := Handoff.Pending.stepsLeft_le hp
    simp only [stepsLeft]
    omega

theorem take_stepsLeft_lt {popped : List Descriptor} (hle : popped.length ≤ burst) (s : Extension) :
    (s.take popped).stepsLeft burst drainRetries < burst + drainRetries + 7 := by
  unfold take
  split
  · show 3 < _
    omega
  · rw [Unwrapper.byLanes_eq]
    have hstart := Handoff.start_stepsLeft_le drainRetries (s.unwrapper.values (popped.map Descriptor.truncatedTs))
    rw [Unwrapper.length_values, List.length_map] at hstart
    simp only [stepsLeft]
    omega

theorem afterPush_below {items : Handoff UInt64} (s : Extension) (hlimit : 1 < limit)
    (hgo : (∀ interrupted, items.point ≠ .over interrupted) → items.stepsLeft drainRetries + 2 < limit) :
    (s.afterPush items).Below (stepsLeft burst drainRetries) limit := by
  unfold afterPush
  split
  · dsimp only
    split
    · trivial
    · exact hlimit
  · rename_i hnot
    exact hgo hnot

theorem step_below (job : Job) (hsignal : o.signal = true) (inbound : Ring Descriptor) (upDone : Bool) (s : Extension) :
    (s.step job inbound upDone o).2.2.Below (stepsLeft job.burst job.drainRetries)
      (s.stepsLeft job.burst job.drainRetries) := by
  obtain ⟨point, unwrapper, tally⟩ := s
  cases point with
  | readSignal =>
    simp only [Extension.step, hsignal]
    trivial
  | readDownstream =>
    simp only [Extension.step]
    split
    · trivial
    · exact Nat.lt_succ_self _
  | pop => exact take_stepsLeft_lt (inbound.length_popUpTo_le _) _
  | readUpstream =>
    simp only [Extension.step]
    split
    · exact Nat.lt_succ_self 2
    · exact Nat.one_lt_succ_succ 1
  | recheck =>
    simp only [Extension.step]
    split
    · trivial
    · exact Nat.one_lt_two
  | push items =>
    refine afterPush_below _ (Nat.lt_add_left _ Nat.one_lt_two) fun hgo => ?_
    exact Nat.add_lt_add_right (Handoff.stepsLeft_step_lt hsignal hgo) 2

end Extension

namespace Delivery

variable {job : Job} {outbound : Ring UInt64} {signal upDone : Bool} {delivered : Array UInt64} {s : Delivery}

/-- Steps that the sink can still make under a raised signal. -/
def stepsLeft (s : Delivery) : Nat :=
  match s.point with
  | .pop want => want + 4
  | .deliver left _ => left.length + 2
  | .readUpstream => 3
  | .recheck => 2
  | .readSignal => 1

theorem Sound.stepsLeft_le {n : Nat} (hs : s.Sound job upDone n) :
    s.stepsLeft ≤ 2 * job.burst + job.drainRetries + 9 := by
  obtain ⟨point, count⟩ := s
  cases point with
  | readSignal | readUpstream | recheck =>
    simp only [stepsLeft]
    omega
  | pop want =>
    obtain ⟨-, hle, -⟩ := hs
    simp only [stepsLeft]
    omega
  | deliver left size =>
    obtain ⟨-, hleft, hle, -⟩ := hs
    simp only [stepsLeft]
    omega

theorem proceed_stepsLeft_le (s : Delivery) (left : List UInt64) (size : Nat) :
    (s.proceed left size).stepsLeft ≤ left.length + 2 := by
  unfold proceed
  split
  · show 1 ≤ _
    omega
  · exact le_rfl

theorem step_below (job : Job) (hsignal : signal = true) (outbound : Ring UInt64) (upDone : Bool) (delivered : Array UInt64)
    (s : Delivery) : (s.step job outbound signal upDone delivered).2.2.Below stepsLeft s.stepsLeft := by
  obtain ⟨point, count⟩ := s
  cases point with
  | readSignal =>
    simp only [Delivery.step, hsignal]
    trivial
  | pop want =>
    simp only [Delivery.step]
    split
    · show 3 < want + 4
      omega
    · have hle := outbound.length_popUpTo_le want
      have hproceed := proceed_stepsLeft_le ⟨.pop want, count⟩ (outbound.popUpTo want).1
        (outbound.popUpTo want).1.length
      show _ < want + 4
      omega
  | readUpstream =>
    simp only [Delivery.step]
    split
    · exact Nat.lt_succ_self 2
    · exact Nat.one_lt_succ_succ 1
  | recheck =>
    simp only [Delivery.step]
    split
    · trivial
    · exact Nat.one_lt_two
  | deliver left size =>
    cases left with
    | nil => exact Nat.one_lt_two
    | cons value left =>
      simp only [Delivery.step]
      split
      · trivial
      · exact Nat.lt_succ_of_le (proceed_stepsLeft_le ⟨.deliver (value :: left) size, count⟩ left size)

end Delivery

namespace Worker

variable {β : Type} {loop : β → Nat} {entry : Nat} {worker : Worker β}

/-- A stage that has ended stays as it is. -/
theorem advance_of_hasEnded (h : worker.hasEnded = true) (job : Job) (kind : StageKind) (first : β) (signal : Bool) :
    worker.advance job kind first signal = (worker, signal) := by
  obtain ⟨position, state, done⟩ := worker
  cases position with
  | ended ending => rfl
  | bind | refused | enter | loop | broken | leave | finish => cases h

theorem patience_eq_zero_iff : worker.position.patience loop entry = 0 ↔ worker.hasEnded = true := by
  obtain ⟨position, state, done⟩ := worker
  cases position with
  | ended ending => exact ⟨fun _ => rfl, fun _ => rfl⟩
  | bind | refused | enter | loop | broken | leave | finish =>
    exact ⟨fun h => absurd h (Nat.succ_ne_zero _), fun h => absurd h Bool.false_ne_true⟩

end Worker

namespace World

variable {job : Job} {w : World}

/-! ## Whole stages -/

/-- Steps that a stage can still make under a raised signal. -/
def stepsLeft (job : Job) (w : World) : StageKind → Nat
  | .source =>
    w.source.position.patience (Intake.stepsLeft job.burst job.drainRetries) (2 * job.burst + job.drainRetries + 9)
  | .extender =>
    w.extender.position.patience (Extension.stepsLeft job.burst job.drainRetries)
      (2 * job.burst + job.drainRetries + 9)
  | .sink => w.sink.position.patience Delivery.stepsLeft (2 * job.burst + job.drainRetries + 9)

theorem Sound.stepsLeft_le (hs : w.Sound job) (hp : w.Poised job) (stage : StageKind) :
    w.stepsLeft job stage ≤ 2 * job.burst + job.drainRetries + 15 := by
  cases stage with
  | source =>
    exact Position.patience_le fun s hpos => Intake.Sound.stepsLeft_le (hs.source.of_loop hpos) (hp.source.of_loop hpos)
  | extender =>
    exact Position.patience_le fun s hpos =>
      Extension.Sound.stepsLeft_le (hs.extender.of_loop hpos) (hp.extender.of_loop hpos)
  | sink => exact Position.patience_le fun s hpos => Delivery.Sound.stepsLeft_le (hs.sink.of_loop hpos)

theorem stepsLeft_eq_zero_iff {stage : StageKind} : w.stepsLeft job stage = 0 ↔ w.hasEnded stage = true := by
  cases stage with
  | source => exact Worker.patience_eq_zero_iff
  | extender => exact Worker.patience_eq_zero_iff
  | sink => exact Worker.patience_eq_zero_iff

theorem stepsLeft_apply_of_ne {stage : StageKind} {move : Move} (hne : move ≠ .step stage) :
    (w.apply job move).stepsLeft job stage = w.stepsLeft job stage := by
  cases stage with
  | source => simp only [stepsLeft, (apply_of_ne_source job w hne).1]
  | extender => simp only [stepsLeft, apply_of_ne_extender job w hne]
  | sink => simp only [stepsLeft, (apply_of_ne_sink job w hne).1]

/-- A stage that has ended does nothing more. -/
theorem step_of_hasEnded {stage : StageKind} (h : w.hasEnded stage = true) : w.step job stage = w := by
  cases stage with
  | source =>
    show w.stepSource job = w
    rcases w.stepSource_cases job with ⟨s, hpos, -⟩ | ⟨-, heq⟩
    · simp [hasEnded, Worker.hasEnded, hpos] at h
    · rw [heq, Worker.advance_of_hasEnded h]
  | extender =>
    show w.stepExtender job = w
    rcases w.stepExtender_cases job with ⟨s, hpos, -⟩ | ⟨-, heq⟩
    · simp [hasEnded, Worker.hasEnded, hpos] at h
    · rw [heq, Worker.advance_of_hasEnded h]
  | sink =>
    show w.stepSink job = w
    rcases w.stepSink_cases job with ⟨s, hpos, -⟩ | ⟨-, heq⟩
    · simp [hasEnded, Worker.hasEnded, hpos] at h
    · rw [heq, Worker.advance_of_hasEnded h]

/-- Under a raised signal a step of a stage leaves it fewer. -/
theorem stepsLeft_step_lt (hsignal : w.signal = true) {stage : StageKind} (hopen : w.hasEnded stage ≠ true) :
    (w.step job stage).stepsLeft job stage < w.stepsLeft job stage := by
  cases stage with
  | source =>
    show (w.stepSource job).stepsLeft job .source < _
    rcases w.stepSource_cases job with ⟨s, hpos, heq⟩ | ⟨hout, heq⟩ <;> rw [heq]
    · have hbelow := Intake.step_below job (o := w.sourceOutlet) hsignal w.calls s
      simp only [stepsLeft, hpos]
      exact hbelow.position
    · exact Worker.patience_advance _ _ _ hopen hout (Nat.le_add_left 1 _)
  | extender =>
    show (w.stepExtender job).stepsLeft job .extender < _
    rcases w.stepExtender_cases job with ⟨s, hpos, heq⟩ | ⟨hout, heq⟩ <;> rw [heq]
    · have hbelow := Extension.step_below job (o := w.extenderOutlet) hsignal w.inbound w.source.done s
      simp only [stepsLeft, hpos]
      exact hbelow.position
    · exact Worker.patience_advance _ _ _ hopen hout (Nat.le_add_left 1 _)
  | sink =>
    show (w.stepSink job).stepsLeft job .sink < _
    rcases w.stepSink_cases job with ⟨s, hpos, heq⟩ | ⟨hout, heq⟩ <;> rw [heq]
    · have hbelow := Delivery.step_below job hsignal w.outbound w.extender.done w.delivered s
      simp only [stepsLeft, hpos]
      exact hbelow.position
    · exact Worker.patience_advance _ _ _ hopen hout (Nat.le_add_left 1 _)

theorem stepsLeft_step_le (hsignal : w.signal = true) (stage : StageKind) :
    (w.step job stage).stepsLeft job stage ≤ w.stepsLeft job stage - 1 := by
  by_cases hended : w.hasEnded stage = true
  · rw [step_of_hasEnded hended, stepsLeft_eq_zero_iff.2 hended]
  · exact Nat.le_sub_one_of_lt (stepsLeft_step_lt hsignal hended)

/-! ## Rounds -/

/-- A move of a run that is left to itself but for the signal. -/
def Move.Inner : Move → Prop
  | .step _ | .raiseSignal => True
  | .finish _ | .takeInbound _ | .takeOutbound _ | .offerInbound _ | .offerOutbound _ => False

theorem Reachable.apply {begun : World} (h : Reachable job begun w) {move : Move} (hmove : move.Inner) :
    Reachable job begun (w.apply job move) := by
  cases move with
  | step stage => exact .step stage h
  | raiseSignal => exact .raise h
  | finish | takeInbound | takeOutbound | offerInbound | offerOutbound => exact hmove.elim

/-- Moves of a run, among which every stage steps. -/
structure Round (moves : List Move) : Prop where
  inner : ∀ move ∈ moves, move.Inner
  complete : ∀ stage, .step stage ∈ moves

theorem applyAll_append (job : Job) (w : World) (moves more : List Move) :
    w.applyAll job (moves ++ more) = (w.applyAll job moves).applyAll job more :=
  List.foldl_append

/-- What each of some moves keeps is kept in the course of all. -/
theorem keeps_applyAll {kept : World → Prop} {moves : List Move}
    (hkept : ∀ (v : World), ∀ move ∈ moves, kept v → kept (v.apply job move)) (hw : kept w) :
    kept (w.applyAll job moves) := by
  induction moves generalizing w with
  | nil => exact hw
  | cons move moves ih =>
    have hnext := hkept w move List.mem_cons_self hw
    exact ih (fun v m hm => hkept v m (List.mem_cons_of_mem _ hm)) hnext

theorem signal_applyAll (h : w.signal = true) (moves : List Move) : (w.applyAll job moves).signal = true :=
  keeps_applyAll (fun (v : World) move _ (hv : v.signal = true) => signal_apply move hv) h

theorem Reachable.applyAll {begun : World} (h : Reachable job begun w) {moves : List Move}
    (hmoves : ∀ move ∈ moves, move.Inner) : Reachable job begun (w.applyAll job moves) :=
  keeps_applyAll (fun _ move hmem hv => hv.apply (hmoves move hmem)) h

theorem inner_of_rounds {rounds : List (List Move)} (hrounds : ∀ round ∈ rounds, Round round) :
    ∀ move ∈ rounds.flatten, move.Inner := by
  intro move hmove
  obtain ⟨round, hround, hmem⟩ := List.mem_flatten.1 hmove
  exact (hrounds round hround).inner move hmem

/-- A number that no move of a run makes grow and that each step of a stage lowers, as long as something is kept. -/
structure Ranking (job : Job) (stage : StageKind) (kept : World → Prop) (rank : World → Nat) : Prop where
  keeps : ∀ (v : World) (move : Move), move.Inner → kept v → kept (v.apply job move)
  other : ∀ (v : World) (move : Move), kept v → move ≠ .step stage → rank (v.apply job move) ≤ rank v
  own : ∀ v : World, kept v → rank (v.step job stage) ≤ rank v - 1

namespace Ranking

variable {stage : StageKind} {kept : World → Prop} {rank : World → Nat}

theorem kept_applyAll (h : Ranking job stage kept rank) (hw : kept w) {moves : List Move}
    (hmoves : ∀ move ∈ moves, move.Inner) : kept (w.applyAll job moves) :=
  keeps_applyAll (fun v move hmem hv => h.keeps v move (hmoves move hmem) hv) hw

theorem applyAll_le (h : Ranking job stage kept rank) (hw : kept w) {moves : List Move}
    (hmoves : ∀ move ∈ moves, move.Inner) : rank (w.applyAll job moves) ≤ rank w := by
  induction moves generalizing w with
  | nil => exact le_rfl
  | cons move moves ih =>
    have hinner := hmoves move List.mem_cons_self
    refine (ih (h.keeps w move hinner hw) fun m hm => hmoves m (List.mem_cons_of_mem _ hm)).trans ?_
    by_cases hmove : move = .step stage
    · subst hmove
      exact (h.own w hw).trans (Nat.sub_le _ _)
    · exact h.other w move hw hmove

/-- Behind a round, in which the stage steps, it is lower. -/
theorem round_le (h : Ranking job stage kept rank) (hw : kept w) {moves : List Move} (hround : Round moves) :
    rank (w.applyAll job moves) ≤ rank w - 1 := by
  obtain ⟨before, after, rfl⟩ := List.append_of_mem (hround.complete stage)
  have hbefore : ∀ move ∈ before, move.Inner := fun m hm => hround.inner m (List.mem_append_left _ hm)
  have hafter : ∀ move ∈ after, move.Inner := fun m hm =>
    hround.inner m (List.mem_append_right _ (List.mem_cons_of_mem _ hm))
  have hv := h.kept_applyAll hw hbefore
  rw [applyAll_append]
  calc rank (((w.applyAll job before).step job stage).applyAll job after)
      ≤ rank ((w.applyAll job before).step job stage) := h.applyAll_le (h.keeps _ (.step stage) trivial hv) hafter
    _ ≤ rank (w.applyAll job before) - 1 := h.own _ hv
    _ ≤ rank w - 1 := Nat.sub_le_sub_right (h.applyAll_le hw hbefore) 1

theorem rounds_le (h : Ranking job stage kept rank) (hw : kept w) {rounds : List (List Move)}
    (hrounds : ∀ round ∈ rounds, Round round) : rank (w.applyAll job rounds.flatten) ≤ rank w - rounds.length := by
  induction rounds generalizing w with
  | nil => exact le_rfl
  | cons round rounds ih =>
    have hround := hrounds round List.mem_cons_self
    have hlater := ih (h.kept_applyAll hw hround.inner) fun r hr => hrounds r (List.mem_cons_of_mem _ hr)
    have hfirst := h.round_le hw hround
    rw [List.flatten_cons, applyAll_append, List.length_cons]
    omega

end Ranking

theorem stepsLeft_ranking (job : Job) (stage : StageKind) :
    Ranking job stage (fun v => v.signal = true) fun v => v.stepsLeft job stage where
  keeps _ move _ hv := signal_apply move hv
  other _ _ _ hne := (stepsLeft_apply_of_ne hne).le
  own _ hv := stepsLeft_step_le hv stage

/-- Under a raised signal every stage ends after so many rounds, however they are made up. -/
theorem hasEnded_of_rounds (hsignal : w.signal = true) {stage : StageKind} {rounds : List (List Move)}
    (hrounds : ∀ round ∈ rounds, Round round) (hlength : w.stepsLeft job stage ≤ rounds.length) :
    (w.applyAll job rounds.flatten).hasEnded stage = true := by
  have hle := (stepsLeft_ranking job stage).rounds_le hsignal hrounds
  rw [Nat.sub_eq_zero_of_le hlength] at hle
  exact stepsLeft_eq_zero_iff.1 (Nat.le_zero.1 hle)

end World

namespace Pipeline

variable {p : Pipeline} {m : Machine} {load : Workload} {begun w : World}

theorem reachable_poised (hlaunch : p.launch m = .ok begun) (hreach : World.Reachable (p.job m load) begun w) :
    w.Poised (p.job m load) := by
  refine hreach.poised p.config.burst_pos ?_
  rw [launch_eq hlaunch]
  exact World.start_poised _ _ _ _ _

/-- Under a raised signal a run comes to its end, after a number of rounds that depends on the configuration only. -/
theorem ends_of_rounds (hlaunch : p.launch m = .ok begun) (hreach : World.Reachable (p.job m load) begun w)
    (hsignal : w.signal = true) {rounds : List (List World.Move)} (hrounds : ∀ round ∈ rounds, World.Round round)
    (hlength : 2 * p.config.burst + p.config.drainRetries.toNat + 15 ≤ rounds.length) (stage : StageKind) :
    (w.applyAll (p.job m load) rounds.flatten).hasEnded stage = true := by
  have hleft : w.stepsLeft (p.job m load) stage ≤ 2 * p.config.burst + p.config.drainRetries.toNat + 15 :=
    (reachable_sound hlaunch hreach).stepsLeft_le (reachable_poised hlaunch hreach) stage
  exact World.hasEnded_of_rounds hsignal hrounds (hleft.trans hlength)

end Pipeline

end TimestampRelay
