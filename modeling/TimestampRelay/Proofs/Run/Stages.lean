/-
The loops of the stages, one at a time, whatever the other stages do. What a stage takes in it holds, or
hands on, in order. Its counts are exact. And it leaves its loop only for a reason that it has seen:
the end of its input, a raised signal, or a neighbour that has stopped.
-/
import TimestampRelay.Proofs.Counter.Lanes
import TimestampRelay.Proofs.Run.Handoff
import TimestampRelay.Run.Holdings

namespace TimestampRelay

/-! ## Loops and what follows them -/

section Next

variable {β : Type}

def Next.last : Next β → β
  | .loop state => state
  | .exit last _ | .broken last => last

theorem Next.last?_position (next : Next β) : next.position.last? = some next.last := by
  cases next <;> rfl

/-- A step that goes on leads to a loop of one kind, a step that leaves to an end of another. -/
def Next.Meets (loop : β → Prop) (left : β → ExitReason → Prop) : Next β → Prop
  | .loop state => loop state
  | .exit last reason => left last reason
  | .broken _ => True

/-- A loop that goes on is of one kind, and one that was left is of another. -/
def Position.Meets (loop : β → Prop) (left : β → ExitReason → Prop) : Position β → Prop
  | .loop state => loop state
  | .leave (.returned last exit) | .finish (.returned last exit) | .ended (.returned last exit) =>
    left last exit
  | _ => True

theorem Position.Meets.of_loop {loop : β → Prop} {left : β → ExitReason → Prop} {position : Position β}
    {s : β} (h : position.Meets loop left) (hs : position = .loop s) : loop s := by
  rw [hs] at h
  exact h

/-- A stage that has returned left its loop as it could. -/
theorem Position.Meets.of_returned {loop : β → Prop} {left : β → ExitReason → Prop} {position : Position β}
    {last : β} {exit : ExitReason} (h : position.Meets loop left) (hpos : position = .ended (.returned last exit)) :
    left last exit := by
  rw [hpos] at h
  exact h

theorem Next.Meets.position {loop : β → Prop} {left : β → ExitReason → Prop} {next : Next β}
    (h : next.Meets loop left) : next.position.Meets loop left := by
  cases next <;> exact h

theorem Position.Meets.imp {loop loop' : β → Prop} {left left' : β → ExitReason → Prop}
    {position : Position β} (h : position.Meets loop left) (hloop : ∀ s, loop s → loop' s)
    (hleft : ∀ s exit, left s exit → left' s exit) : position.Meets loop' left' := by
  cases position with
  | loop state => exact hloop _ h
  | leave ending | finish ending | ended ending =>
    cases ending with
    | returned last exit => exact hleft _ _ h
    | broken | unpinned => trivial
  | bind | refused | enter | broken => trivial

end Next

/-! ## What the feed has answered -/

namespace Workload

variable {load : Workload} {calls : Nat}

/-- The events among the answers to the first calls. -/
def answered (load : Workload) (calls : Nat) : List Descriptor :=
  (List.range calls).filterMap fun call =>
    match load.feed call with
    | .event d => some d
    | .ended | .broken => none

/-- Every one of the first calls was answered with an event. -/
def Fed (load : Workload) (calls : Nat) : Prop :=
  ∀ call < calls, ∃ d, load.feed call = .event d

/-- The last of the calls was answered with the end, and all before it with events. -/
def Closed (load : Workload) (calls : Nat) : Prop :=
  ∃ n, calls = n + 1 ∧ load.Fed n ∧ load.feed n = .ended

theorem answered_succ (load : Workload) (calls : Nat) :
    load.answered (calls + 1) = load.answered calls ++
      match load.feed calls with
      | .event d => [d]
      | .ended | .broken => [] := by
  simp only [answered, List.range_succ, List.filterMap_append, List.filterMap_cons, List.filterMap_nil]
  cases load.feed calls <;> rfl

theorem fed_zero (load : Workload) : load.Fed 0 :=
  fun _ h => absurd h (Nat.not_lt_zero _)

theorem Fed.succ (h : load.Fed calls) {d : Descriptor} (hd : load.feed calls = .event d) :
    load.Fed (calls + 1) := by
  intro call hcall
  rcases Nat.lt_succ_iff_lt_or_eq.1 hcall with hlt | rfl
  · exact h call hlt
  · exact ⟨d, hd⟩

end Workload

/-! ## The source -/

namespace Intake

variable {job : Job} {o : Outlet Descriptor} {signal downDone : Bool} {calls calls' : Nat}

/-- Events that were pulled and are not counted as received yet. -/
def gathered (s : Intake) : Nat :=
  match s.point with
  | .pull held => held.size
  | _ => 0

/-- The source in its loop: all it pulled is counted as received or is being gathered, all it received is
counted as forwarded or is in the burst at hand, and the feed has ended only behind the last burst. -/
def Sound (job : Job) (signal downDone : Bool) (calls : Nat) (s : Intake) : Prop :=
  s.tally.received + s.gathered = (job.workload.answered calls).length ∧
    match s.point with
    | .readSignal | .readNeighbour =>
      job.workload.Fed calls ∧ s.tally.forwarded = s.tally.received
    | .pull held =>
      job.workload.Fed calls ∧ s.tally.forwarded = s.tally.received ∧ held.size < job.burst
    | .push burst isLast =>
      (if isLast then job.workload.Closed calls else job.workload.Fed calls) ∧
        burst.Sound signal downDone ∧
        s.tally.forwarded + burst.pushed + burst.held.length = s.tally.received ∧
        burst.pushed + burst.held.length ≤ job.burst

/-- The source behind its loop: it has counted all it pulled, and holds what it did not forward. -/
def Left (job : Job) (signal downDone : Bool) (calls : Nat) (last : Intake) (exit : ExitReason) : Prop :=
  last.tally.received = (job.workload.answered calls).length ∧
    last.tally.forwarded + last.held.length = last.tally.received ∧ last.held.length ≤ job.burst ∧
    match exit with
    | .inputExhausted => job.workload.Closed calls ∧ last.held = []
    | .shutdown => (job.workload.Fed calls ∨ job.workload.Closed calls) ∧ signal = true
    | .downstreamStopped => (job.workload.Fed calls ∨ job.workload.Closed calls) ∧ downDone = true
    | .expectedReached => False

theorem first_sound (job : Job) (signal downDone : Bool) : first.Sound job signal downDone 0 :=
  ⟨rfl, job.workload.fed_zero, rfl⟩

theorem Sound.mono {s : Intake} {signal' downDone' : Bool} (h : s.Sound job signal downDone calls)
    (hsignal : signal = true → signal' = true) (hdone : downDone = true → downDone' = true) :
    s.Sound job signal' downDone' calls := by
  obtain ⟨point, tally⟩ := s
  cases point with
  | push burst isLast =>
    obtain ⟨hcount, hfeed, hburst, hrest⟩ := h
    exact ⟨hcount, hfeed, hburst.mono hsignal hdone, hrest⟩
  | readSignal | readNeighbour | pull held => exact h

theorem Left.mono {last : Intake} {exit : ExitReason} {signal' downDone' : Bool}
    (h : last.Left job signal downDone calls exit) (hsignal : signal = true → signal' = true)
    (hdone : downDone = true → downDone' = true) : last.Left job signal' downDone' calls exit := by
  obtain ⟨hcount, hheld, hle, hexit⟩ := h
  refine ⟨hcount, hheld, hle, ?_⟩
  cases exit with
  | inputExhausted | expectedReached => exact hexit
  | shutdown => exact ⟨hexit.1, hsignal hexit.2⟩
  | downstreamStopped => exact ⟨hexit.1, hdone hexit.2⟩

theorem gather_spec (signal downDone : Bool) (hburst : 0 < job.burst) (held : Array Descriptor) (tally : Tally)
    (hfed : job.workload.Fed calls) (hforwarded : tally.forwarded = tally.received)
    (hcount : tally.received + held.size = (job.workload.answered calls).length)
    (hle : held.size ≤ job.burst) :
    (gather job.burst held tally).last.held = held.toList ∧
      (gather job.burst held tally).Meets (Sound job signal downDone calls)
        (Left job signal downDone calls) := by
  unfold gather
  split
  · rename_i hlt
    exact ⟨rfl, hcount, hfed, hforwarded, hlt⟩
  · rename_i hge
    split
    · -- A burst has room for an item, so a complete one is not empty.
      rename_i hnil
      rw [Array.isEmpty_iff_size_eq_zero] at hnil
      omega
    · refine ⟨rfl, hcount, hfed, Handoff.start_sound _ _ _, ?_, ?_⟩
      · show tally.forwarded + 0 + held.toList.length = tally.received + held.size
        rw [hforwarded, Array.length_toList]
        rfl
      · show 0 + held.toList.length ≤ job.burst
        rw [Array.length_toList]
        omega

theorem close_spec (signal downDone : Bool) (held : Array Descriptor) (tally : Tally)
    (hclosed : job.workload.Closed calls)
    (hforwarded : tally.forwarded = tally.received)
    (hcount : tally.received + held.size = (job.workload.answered calls).length)
    (hle : held.size ≤ job.burst) :
    (close held tally).last.held = held.toList ∧
      (close held tally).Meets (Sound job signal downDone calls) (Left job signal downDone calls) := by
  unfold close
  split
  · rename_i hnil
    rw [Array.isEmpty_iff] at hnil
    subst hnil
    exact ⟨rfl, hcount, hforwarded, Nat.zero_le _, hclosed, rfl⟩
  · refine ⟨rfl, hcount, hclosed, Handoff.start_sound _ _ _, ?_, ?_⟩
    · show tally.forwarded + 0 + held.toList.length = tally.received + held.size
      rw [hforwarded, Array.length_toList]
      rfl
    · show 0 + held.toList.length ≤ job.burst
      rw [Array.length_toList]
      omega

theorem afterPush_spec {burst : Handoff Descriptor} {isLast : Bool} {tally : Tally}
    (h : Sound job signal downDone calls ⟨.push burst isLast, tally⟩) :
    (afterPush burst isLast tally).last.held = burst.held ∧
      (afterPush burst isLast tally).Meets (Sound job signal downDone calls)
        (Left job signal downDone calls) := by
  obtain ⟨hcount, hfeed, hburst, hforwarded, hle⟩ := h
  have hfeed' : job.workload.Fed calls ∨ job.workload.Closed calls := by
    cases isLast
    · exact .inl hfeed
    · exact .inr hfeed
  obtain ⟨held, pushed, point⟩ := burst
  cases point with
  | «over» interrupted =>
    cases interrupted with
    | none =>
      -- All is pushed, so going on loses nothing.
      have hnil : held = [] := hburst
      subst hnil
      cases isLast with
      | true => exact ⟨rfl, hcount, hforwarded, Nat.zero_le _, hfeed, rfl⟩
      | false => exact ⟨rfl, hcount, hfeed, hforwarded⟩
    | some reason =>
      refine ⟨rfl, hcount, hforwarded, le_trans (Nat.le_add_left _ _) hle, ?_⟩
      cases reason with
      | shutdown => exact ⟨hfeed', hburst.2⟩
      | downstreamStopped => exact ⟨hfeed', hburst.2⟩
      | inputExhausted | expectedReached => exact False.elim hburst
  | attempt | readSignal | showDraining | drain | readNeighbour =>
    exact ⟨rfl, hcount, hfeed, hburst, hforwarded, hle⟩

/-- What a step of the source does: what it pulls joins the items that it holds and those in the ring, in
order, and its counts stay exact. -/
structure Stepped (job : Job) (o : Outlet Descriptor) (calls : Nat) (s : Intake)
    (result : Outlet Descriptor × Nat × Next Intake) : Prop where
  atRest : result.1.ring.AtRest
  capacity : result.1.ring.capacity = o.ring.capacity
  items : ∃ more, job.workload.answered result.2.1 = job.workload.answered calls ++ more ∧
    result.1.ring.toList ++ result.2.2.last.held = o.ring.toList ++ s.held ++ more
  meets : result.2.2.Meets (Sound job o.signal o.neighbourDone result.2.1)
    (Left job o.signal o.neighbourDone result.2.1)

theorem Stepped.idle {s : Intake} {next : Next Intake} (hr : o.ring.AtRest)
    (hanswered : job.workload.answered calls' = job.workload.answered calls)
    (hheld : next.last.held = s.held)
    (hmeets : next.Meets (Sound job o.signal o.neighbourDone calls')
      (Left job o.signal o.neighbourDone calls')) : Stepped job o calls s (o, calls', next) := by
  refine ⟨hr, rfl, ⟨[], ?_, ?_⟩, hmeets⟩
  · rw [hanswered, List.append_nil]
  · rw [hheld, List.append_nil]

theorem Sound.step_pull {held : Array Descriptor} {tally : Tally}
    (hs : Sound job o.signal o.neighbourDone calls ⟨.pull held, tally⟩) (hburst : 0 < job.burst)
    (hr : o.ring.AtRest) :
    Stepped job o calls ⟨.pull held, tally⟩ (Intake.step job o calls ⟨.pull held, tally⟩) := by
  obtain ⟨hcount, hfed, hforwarded, hlt⟩ := hs
  have hsucc := job.workload.answered_succ calls
  simp only [Intake.step]
  cases hfeed : job.workload.feed calls with
  | event d =>
    rw [hfeed] at hsucc
    have hsize : tally.received + (held.push d).size = (job.workload.answered (calls + 1)).length := by
      rw [hsucc, List.length_append, ← hcount, Array.size_push]
      rfl
    obtain ⟨hheld, hmeets⟩ := gather_spec o.signal o.neighbourDone hburst (held.push d) tally
      (hfed.succ hfeed) hforwarded hsize (by rw [Array.size_push]; exact hlt)
    refine ⟨hr, rfl, ⟨[d], hsucc, ?_⟩, hmeets⟩
    rw [hheld, Array.toList_push, List.append_assoc]
    rfl
  | ended =>
    rw [hfeed, List.append_nil] at hsucc
    obtain ⟨hheld, hmeets⟩ := close_spec o.signal o.neighbourDone held tally ⟨calls, rfl, hfed, hfeed⟩
      hforwarded (by rw [hsucc]; exact hcount) hlt.le
    exact .idle hr hsucc hheld hmeets
  | broken =>
    rw [hfeed, List.append_nil] at hsucc
    exact .idle hr hsucc rfl trivial

theorem Sound.step_push {burst : Handoff Descriptor} {isLast : Bool} {tally : Tally}
    (hs : Sound job o.signal o.neighbourDone calls ⟨.push burst isLast, tally⟩) (hr : o.ring.AtRest) :
    Stepped job o calls ⟨.push burst isLast, tally⟩
      (Intake.step job o calls ⟨.push burst isLast, tally⟩) := by
  obtain ⟨hcount, hfeed, hsound, hforwarded, hle⟩ := hs
  have hstep := hsound.step hr job.drainRetries
  have hnext : Sound job o.signal o.neighbourDone calls
      ⟨.push (burst.step job.drainRetries o).2 isLast, tally⟩ := by
    refine ⟨hcount, hfeed, hstep.sound, ?_, ?_⟩
    · rw [Nat.add_assoc, hstep.count, ← Nat.add_assoc]
      exact hforwarded
    · rw [hstep.count]
      exact hle
  obtain ⟨hheld, hmeets⟩ := afterPush_spec hnext
  refine ⟨hstep.atRest, hstep.capacity, ⟨[], (List.append_nil _).symm, ?_⟩, hmeets⟩
  rw [List.append_nil]
  show (burst.step job.drainRetries o).1.ring.toList ++
    (afterPush (burst.step job.drainRetries o).2 isLast tally).last.held = o.ring.toList ++ burst.held
  rw [hheld, hstep.items]

theorem Sound.step {s : Intake} (hs : s.Sound job o.signal o.neighbourDone calls) (hburst : 0 < job.burst)
    (hr : o.ring.AtRest) : Stepped job o calls s (s.step job o calls) := by
  obtain ⟨point, tally⟩ := s
  cases point with
  | readSignal =>
    obtain ⟨hcount, hfed, hforwarded⟩ := hs
    simp only [Intake.step]
    split
    · rename_i hsignal
      exact .idle hr rfl rfl ⟨hcount, hforwarded, Nat.zero_le _, .inl hfed, hsignal⟩
    · exact .idle hr rfl rfl ⟨hcount, hfed, hforwarded⟩
  | readNeighbour =>
    obtain ⟨hcount, hfed, hforwarded⟩ := hs
    simp only [Intake.step]
    split
    · rename_i hdone
      exact .idle hr rfl rfl ⟨hcount, hforwarded, Nat.zero_le _, .inl hfed, hdone⟩
    · obtain ⟨hheld, hmeets⟩ := gather_spec o.signal o.neighbourDone hburst #[] tally hfed hforwarded hcount
        (Nat.zero_le _)
      exact .idle hr rfl hheld hmeets
  | pull held => exact hs.step_pull hburst hr
  | push burst isLast => exact hs.step_push hr

end Intake

/-! ## The extender -/

namespace Extension

variable {job : Job} {inbound : Ring Descriptor} {o : Outlet UInt64} {signal upDone downDone : Bool}

/-- The extender in its loop: all it received is counted as forwarded or is in the burst at hand, and it
looks at its ring again only behind a source that has stopped. -/
def Sound (job : Job) (signal upDone downDone : Bool) (s : Extension) : Prop :=
  match s.point with
  | .readSignal | .readDownstream | .pop | .readUpstream => s.tally.forwarded = s.tally.received
  | .recheck => s.tally.forwarded = s.tally.received ∧ upDone = true
  | .push burst =>
    burst.Sound signal downDone ∧
      s.tally.forwarded + burst.pushed + burst.held.length = s.tally.received ∧
      burst.pushed + burst.held.length ≤ job.burst

/-- The extender behind its loop: it holds what it did not forward. -/
def Left (job : Job) (signal upDone downDone : Bool) (last : Extension) (exit : ExitReason) : Prop :=
  last.tally.forwarded + last.held.length = last.tally.received ∧ last.held.length ≤ job.burst ∧
    match exit with
    | .inputExhausted => upDone = true ∧ last.held = []
    | .shutdown => signal = true
    | .downstreamStopped => downDone = true
    | .expectedReached => False

theorem first_sound (job : Job) (signal upDone downDone : Bool) (start : Unwrapper) :
    (first start).Sound job signal upDone downDone :=
  rfl

theorem Sound.mono {s : Extension} {signal' upDone' downDone' : Bool}
    (h : s.Sound job signal upDone downDone) (hsignal : signal = true → signal' = true)
    (hup : upDone = true → upDone' = true) (hdown : downDone = true → downDone' = true) :
    s.Sound job signal' upDone' downDone' := by
  obtain ⟨point, unwrapper, tally⟩ := s
  cases point with
  | push burst => exact ⟨h.1.mono hsignal hdown, h.2⟩
  | recheck => exact ⟨h.1, hup h.2⟩
  | readSignal | readDownstream | pop | readUpstream => exact h

theorem Left.mono {last : Extension} {exit : ExitReason} {signal' upDone' downDone' : Bool}
    (h : last.Left job signal upDone downDone exit) (hsignal : signal = true → signal' = true)
    (hup : upDone = true → upDone' = true) (hdown : downDone = true → downDone' = true) :
    last.Left job signal' upDone' downDone' exit := by
  obtain ⟨hheld, hle, hexit⟩ := h
  refine ⟨hheld, hle, ?_⟩
  cases exit with
  | inputExhausted => exact ⟨hup hexit.1, hexit.2⟩
  | shutdown => exact hsignal hexit
  | downstreamStopped => exact hdown hexit
  | expectedReached => exact hexit

theorem take_spec (signal upDone downDone : Bool) {s : Extension} {popped : List Descriptor}
    (hforwarded : s.tally.forwarded = s.tally.received) (hle : popped.length ≤ job.burst) :
    (s.take popped).unwrapper = s.unwrapper.advanceAll (popped.map Descriptor.truncatedTs) ∧
      (s.take popped).tally.received = s.tally.received + popped.length ∧
      (s.take popped).held = s.unwrapper.values (popped.map Descriptor.truncatedTs) ∧
      (s.take popped).Sound job signal upDone downDone := by
  unfold take
  split
  · rename_i hnil
    rw [List.isEmpty_iff] at hnil
    subst hnil
    exact ⟨rfl, rfl, rfl, hforwarded⟩
  · rw [Unwrapper.byLanes_eq]
    have hlen : (s.unwrapper.values (popped.map Descriptor.truncatedTs)).length = popped.length := by
      rw [Unwrapper.length_values, List.length_map]
    refine ⟨rfl, rfl, rfl, Handoff.start_sound _ _ _, ?_, ?_⟩
    · show s.tally.forwarded + 0 + (s.unwrapper.values _).length = s.tally.received + popped.length
      rw [hlen, hforwarded]
      rfl
    · show 0 + (s.unwrapper.values _).length ≤ job.burst
      rw [hlen, Nat.zero_add]
      exact hle

theorem afterPush_spec (job : Job) (upDone : Bool) {s : Extension} {burst : Handoff UInt64}
    (hburst : burst.Sound signal downDone)
    (hforwarded : s.tally.forwarded + burst.pushed + burst.held.length = s.tally.received)
    (hle : burst.pushed + burst.held.length ≤ job.burst) :
    (s.afterPush burst).last.held = burst.held ∧ (s.afterPush burst).last.unwrapper = s.unwrapper ∧
      (s.afterPush burst).last.tally.received = s.tally.received ∧
      (s.afterPush burst).Meets (Sound job signal upDone downDone) (Left job signal upDone downDone) ∧
      ∀ last, s.afterPush burst ≠ .exit last .inputExhausted := by
  obtain ⟨held, pushed, point⟩ := burst
  cases point with
  | «over» interrupted =>
    cases interrupted with
    | none =>
      have hnil : held = [] := hburst
      subst hnil
      exact ⟨rfl, rfl, rfl, hforwarded, by rintro _ ⟨⟩⟩
    | some reason =>
      refine ⟨rfl, rfl, rfl, ⟨hforwarded, le_trans (Nat.le_add_left _ _) hle, ?_⟩, ?_⟩
      · cases reason with
        | shutdown => exact hburst.2
        | downstreamStopped => exact hburst.2
        | inputExhausted | expectedReached => exact False.elim hburst
      · intro last heq
        cases reason with
        | inputExhausted => exact hburst
        | shutdown | downstreamStopped | expectedReached => cases heq
  | attempt | readSignal | showDraining | drain | readNeighbour =>
    exact ⟨rfl, rfl, rfl, ⟨hburst, hforwarded, hle⟩, by rintro _ ⟨⟩⟩

/-- What a step of the extender does: what it pops from the front of its ring is rebuilt and joins the
values that it holds and those in the next ring, in order, and its counts stay exact. It finds its input
exhausted only in front of an empty ring. -/
structure Stepped (job : Job) (inbound : Ring Descriptor) (upDone : Bool) (o : Outlet UInt64) (s : Extension)
    (result : Ring Descriptor × Outlet UInt64 × Next Extension) : Prop where
  inbound_atRest : result.1.AtRest
  inbound_capacity : result.1.capacity = inbound.capacity
  outbound_atRest : result.2.1.ring.AtRest
  outbound_capacity : result.2.1.ring.capacity = o.ring.capacity
  items : ∃ popped,
    inbound.toList = popped ++ result.1.toList ∧
      result.2.2.last.unwrapper = s.unwrapper.advanceAll (popped.map Descriptor.truncatedTs) ∧
      result.2.2.last.tally.received = s.tally.received + popped.length ∧
      result.2.1.ring.toList ++ result.2.2.last.held =
        o.ring.toList ++ s.held ++ s.unwrapper.values (popped.map Descriptor.truncatedTs)
  meets : result.2.2.Meets (Sound job o.signal upDone o.neighbourDone)
    (Left job o.signal upDone o.neighbourDone)
  exhausted : ∀ last, result.2.2 = .exit last .inputExhausted → result.1.toList = []

theorem Stepped.idle {s : Extension} {inbound' : Ring Descriptor} {next : Next Extension}
    (hin : inbound'.AtRest) (hcap : inbound'.capacity = inbound.capacity)
    (hlist : inbound'.toList = inbound.toList) (hout : o.ring.AtRest)
    (hunwrapper : next.last.unwrapper = s.unwrapper)
    (hreceived : next.last.tally.received = s.tally.received) (hheld : next.last.held = s.held)
    (hmeets : next.Meets (Sound job o.signal upDone o.neighbourDone)
      (Left job o.signal upDone o.neighbourDone))
    (hexhausted : ∀ last, next = .exit last .inputExhausted → inbound.toList = []) :
    Stepped job inbound upDone o s (inbound', o, next) := by
  refine ⟨hin, hcap, hout, rfl, ⟨[], hlist.symm, hunwrapper, hreceived, ?_⟩, hmeets, ?_⟩
  · rw [hheld]
    exact (List.append_nil _).symm
  · intro last heq
    rw [hlist]
    exact hexhausted last heq

theorem step_pop {s : Extension} (hs : s.tally.forwarded = s.tally.received) (hheld : s.held = [])
    (hin : inbound.AtRest) (hout : o.ring.AtRest) :
    Stepped job inbound upDone o s
      ((inbound.popUpTo job.burst).2, o, .loop (s.take (inbound.popUpTo job.burst).1)) := by
  obtain ⟨-, hrest, -, hcap⟩ := hin.popUpTo job.burst
  obtain ⟨hunwrapper, hreceived, htaken, hsound⟩ :=
    take_spec o.signal upDone o.neighbourDone hs (inbound.length_popUpTo_le job.burst)
  refine ⟨hrest, hcap, hout, rfl, ⟨(inbound.popUpTo job.burst).1, ?_, hunwrapper, hreceived, ?_⟩, hsound,
    by rintro _ ⟨⟩⟩
  · exact (hin.popUpTo_append job.burst).symm
  · show o.ring.toList ++ (s.take (inbound.popUpTo job.burst).1).held = o.ring.toList ++ s.held ++ _
    rw [htaken, hheld, List.append_nil]

theorem Sound.step_push {burst : Handoff UInt64} {unwrapper : Unwrapper} {tally : Tally}
    (hs : Sound job o.signal upDone o.neighbourDone ⟨.push burst, unwrapper, tally⟩) (hin : inbound.AtRest)
    (hout : o.ring.AtRest) :
    Stepped job inbound upDone o ⟨.push burst, unwrapper, tally⟩
      (Extension.step job inbound upDone o ⟨.push burst, unwrapper, tally⟩) := by
  obtain ⟨hsound, hforwarded, hle⟩ := hs
  have hstep := hsound.step hout job.drainRetries
  have hforwarded' : tally.forwarded + (burst.step job.drainRetries o).2.pushed +
      (burst.step job.drainRetries o).2.held.length = tally.received := by
    rw [Nat.add_assoc, hstep.count, ← Nat.add_assoc]
    exact hforwarded
  obtain ⟨hheld, hunwrapper, hreceived, hmeets, hexit⟩ :=
    afterPush_spec job upDone (s := ⟨.push burst, unwrapper, tally⟩) hstep.sound hforwarded'
      (by rw [hstep.count]; exact hle)
  refine ⟨hin, rfl, hstep.atRest, hstep.capacity, ⟨[], rfl, hunwrapper, hreceived, ?_⟩, hmeets,
    fun last heq => absurd heq (hexit last)⟩
  show (burst.step job.drainRetries o).1.ring.toList ++ _ = o.ring.toList ++ burst.held ++ []
  rw [List.append_nil, ← hstep.items]
  exact congrArg _ hheld

theorem Sound.step {s : Extension} (hs : s.Sound job o.signal upDone o.neighbourDone)
    (hin : inbound.AtRest) (hout : o.ring.AtRest) :
    Stepped job inbound upDone o s (s.step job inbound upDone o) := by
  obtain ⟨point, unwrapper, tally⟩ := s
  cases point with
  | readSignal =>
    simp only [Extension.step]
    split
    · rename_i hsignal
      exact .idle hin rfl rfl hout rfl rfl rfl ⟨hs, Nat.zero_le _, hsignal⟩ (by rintro _ ⟨⟩)
    · exact .idle hin rfl rfl hout rfl rfl rfl hs (by rintro _ ⟨⟩)
  | readDownstream =>
    simp only [Extension.step]
    split
    · rename_i hdone
      exact .idle hin rfl rfl hout rfl rfl rfl ⟨hs, Nat.zero_le _, hdone⟩ (by rintro _ ⟨⟩)
    · exact .idle hin rfl rfl hout rfl rfl rfl hs (by rintro _ ⟨⟩)
  | pop => exact step_pop hs rfl hin hout
  | readUpstream =>
    simp only [Extension.step]
    split
    · rename_i hdone
      exact .idle hin rfl rfl hout rfl rfl rfl ⟨hs, hdone⟩ (by rintro _ ⟨⟩)
    · exact .idle hin rfl rfl hout rfl rfl rfl hs (by rintro _ ⟨⟩)
  | recheck =>
    obtain ⟨hempty, hrest, hlist, hcap⟩ := hin.exhausted
    simp only [Extension.step]
    split
    · rename_i hexhausted
      rw [hempty, List.isEmpty_iff] at hexhausted
      -- The source had stopped before this look, so nothing can come in any more.
      exact .idle hrest hcap hlist hout rfl rfl rfl ⟨hs.1, Nat.zero_le _, hs.2, rfl⟩ fun _ _ => hexhausted
    · exact .idle hrest hcap hlist hout rfl rfl rfl hs.1 (by rintro _ ⟨⟩)
  | push burst => exact hs.step_push hin hout

end Extension

/-! ## The sink -/

namespace Delivery

variable {job : Job} {outbound : Ring UInt64} {signal upDone : Bool} {delivered : Array UInt64}

/-- The sink in its loop, with so many items delivered: it holds what is left of the burst at hand, it never
takes more than is still expected, and it looks at its ring again only behind an extender that has
stopped. -/
def Sound (job : Job) (upDone : Bool) (delivered : Nat) (s : Delivery) : Prop :=
  match s.point with
  | .readSignal => s.count = delivered ∧ ∀ e, job.expected = some e → s.count ≤ e
  | .pop want =>
    s.count = delivered ∧ want ≤ job.burst ∧
      ∀ e, job.expected = some e → s.count < e ∧ s.count + want ≤ e
  | .readUpstream => s.count = delivered ∧ ∀ e, job.expected = some e → s.count < e
  | .recheck => s.count = delivered ∧ upDone = true ∧ ∀ e, job.expected = some e → s.count < e
  | .deliver left size =>
    delivered + left.length = s.count + size ∧ left.length ≤ size ∧ size ≤ job.burst ∧
      ∀ e, job.expected = some e → s.count + size ≤ e

/-- The sink behind its loop: it has counted all it delivered, and holds nothing. -/
def Left (job : Job) (signal upDone : Bool) (delivered : Nat) (last : Delivery) (exit : ExitReason) : Prop :=
  last.count = delivered ∧ last.held = [] ∧
    match exit with
    | .expectedReached => job.expected = some last.count
    | .inputExhausted => upDone = true ∧ ∀ e, job.expected = some e → last.count < e
    | .shutdown => signal = true
    | .downstreamStopped => False

theorem first_sound (job : Job) (upDone : Bool) : first.Sound job upDone 0 :=
  ⟨rfl, fun _ _ => Nat.zero_le _⟩

theorem Sound.mono {s : Delivery} {upDone' : Bool} {n : Nat} (h : s.Sound job upDone n)
    (hup : upDone = true → upDone' = true) : s.Sound job upDone' n := by
  obtain ⟨point, count⟩ := s
  cases point with
  | recheck => exact ⟨h.1, hup h.2.1, h.2.2⟩
  | readSignal | pop want | readUpstream | deliver left size => exact h

theorem Left.mono {last : Delivery} {exit : ExitReason} {signal' upDone' : Bool} {n : Nat}
    (h : last.Left job signal upDone n exit) (hsignal : signal = true → signal' = true)
    (hup : upDone = true → upDone' = true) : last.Left job signal' upDone' n exit := by
  obtain ⟨hcount, hheld, hexit⟩ := h
  refine ⟨hcount, hheld, ?_⟩
  cases exit with
  | inputExhausted => exact ⟨hup hexit.1, hexit.2⟩
  | shutdown => exact hsignal hexit
  | expectedReached | downstreamStopped => exact hexit

theorem want_spec (signal upDone : Bool) {s : Delivery} {n : Nat} (hnil : s.held = []) (hcount : s.count = n)
    (hexpected : ∀ e, job.expected = some e → s.count ≤ e) :
    (s.want job).last.held = [] ∧
      (s.want job).Meets (Sound job upDone n) (Left job signal upDone n) ∧
      ∀ last, s.want job ≠ .exit last .inputExhausted := by
  unfold want
  cases he : job.expected with
  | none =>
    refine ⟨rfl, ⟨hcount, le_rfl, fun e h => ?_⟩, by rintro _ ⟨⟩⟩
    rw [he] at h
    cases h
  | some expected =>
    simp only
    split
    · rename_i hle
      refine ⟨hnil, ⟨hcount, hnil, ?_⟩, by rintro _ ⟨⟩⟩
      have := hexpected expected he
      show job.expected = some s.count
      rw [he, Nat.le_antisymm this hle]
    · rename_i hlt
      refine ⟨rfl, ⟨hcount, Nat.min_le_left _ _, fun e h => ?_⟩, by rintro _ ⟨⟩⟩
      rw [he] at h
      cases h
      show s.count < expected ∧ s.count + min job.burst (expected - s.count) ≤ expected
      omega

theorem proceed_spec (job : Job) (upDone : Bool) {s : Delivery} (left : List UInt64) {size n : Nat}
    (hcount : n + left.length = s.count + size)
    (hleft : left.length ≤ size) (hle : size ≤ job.burst)
    (hexpected : ∀ e, job.expected = some e → s.count + size ≤ e) :
    (s.proceed left size).held = left ∧ (s.proceed left size).Sound job upDone n := by
  unfold proceed
  split
  · rename_i hnil
    rw [List.isEmpty_iff] at hnil
    subst hnil
    exact ⟨rfl, hcount.symm, hexpected⟩
  · exact ⟨rfl, hcount, hleft, hle, hexpected⟩

/-- What a step of the sink does: what it pops from the front of its ring it holds until it is delivered, in
order, and its count stays exact. It finds its input exhausted only in front of an empty ring. -/
structure Stepped (job : Job) (outbound : Ring UInt64) (signal upDone : Bool) (delivered : Array UInt64)
    (s : Delivery) (result : Ring UInt64 × Array UInt64 × Next Delivery) : Prop where
  atRest : result.1.AtRest
  capacity : result.1.capacity = outbound.capacity
  items : result.2.1.toList ++ result.2.2.last.held ++ result.1.toList =
    delivered.toList ++ s.held ++ outbound.toList
  meets : result.2.2.Meets (Sound job upDone result.2.1.size) (Left job signal upDone result.2.1.size)
  exhausted : ∀ last, result.2.2 = .exit last .inputExhausted → result.1.toList = []

theorem Stepped.idle {s : Delivery} {outbound' : Ring UInt64} {next : Next Delivery}
    (hr : outbound'.AtRest) (hcap : outbound'.capacity = outbound.capacity)
    (hlist : outbound'.toList = outbound.toList) (hheld : next.last.held = s.held)
    (hmeets : next.Meets (Sound job upDone delivered.size) (Left job signal upDone delivered.size))
    (hexhausted : ∀ last, next = .exit last .inputExhausted → outbound.toList = []) :
    Stepped job outbound signal upDone delivered s (outbound', delivered, next) := by
  refine ⟨hr, hcap, ?_, hmeets, ?_⟩
  · rw [hheld, hlist]
  · intro last heq
    rw [hlist]
    exact hexhausted last heq

theorem Sound.step_pop {want count : Nat} (hs : Sound job upDone delivered.size ⟨.pop want, count⟩)
    (hr : outbound.AtRest) (signal : Bool) :
    Stepped job outbound signal upDone delivered ⟨.pop want, count⟩
      (Delivery.step job outbound signal upDone delivered ⟨.pop want, count⟩) := by
  obtain ⟨hcount, hle, hexpected⟩ := hs
  obtain ⟨-, hrest, -, hcap⟩ := hr.popUpTo want
  have hlen : (outbound.popUpTo want).1.length ≤ want := outbound.length_popUpTo_le want
  have hwhole : (outbound.popUpTo want).1 ++ (outbound.popUpTo want).2.toList = outbound.toList :=
    hr.popUpTo_append want
  simp only [Delivery.step]
  split
  · rename_i hnil
    rw [List.isEmpty_iff.1 hnil] at hwhole
    exact .idle hrest hcap hwhole rfl ⟨hcount, fun e he => (hexpected e he).1⟩ (by rintro _ ⟨⟩)
  · obtain ⟨hheld, hsound⟩ := proceed_spec job upDone (s := ⟨.pop want, count⟩)
      (outbound.popUpTo want).1 (n := delivered.size)
      (by show _ = count + _; rw [← hcount]) le_rfl (hlen.trans hle)
      (fun e he => (Nat.add_le_add_left hlen count).trans (hexpected e he).2)
    refine ⟨hrest, hcap, ?_, hsound, by rintro _ ⟨⟩⟩
    show delivered.toList ++ (proceed _ _ _).held ++ _ = delivered.toList ++ [] ++ _
    rw [hheld, List.append_assoc, hwhole, List.append_nil]

theorem Sound.step_deliver {left : List UInt64} {size count : Nat}
    (hs : Sound job upDone delivered.size ⟨.deliver left size, count⟩) (hr : outbound.AtRest) (signal : Bool) :
    Stepped job outbound signal upDone delivered ⟨.deliver left size, count⟩
      (Delivery.step job outbound signal upDone delivered ⟨.deliver left size, count⟩) := by
  obtain ⟨hcount, hleft, hle, hexpected⟩ := hs
  cases left with
  | nil =>
    obtain ⟨hheld, hsound⟩ := proceed_spec job upDone (s := ⟨.deliver [] size, count⟩) [] hcount hleft hle
      hexpected
    exact .idle hr rfl rfl hheld hsound (by rintro _ ⟨⟩)
  | cons value left =>
    rw [List.length_cons] at hcount hleft
    have hcount' : (delivered.push value).size + left.length = count + size := by
      rw [Array.size_push, Nat.add_right_comm]
      exact hcount
    obtain ⟨hheld, hsound⟩ := proceed_spec job upDone (s := ⟨.deliver (value :: left) size, count⟩) left
      hcount' (Nat.le_of_succ_le hleft) hle hexpected
    have hitems : (delivered.push value).toList ++ left ++ outbound.toList =
        delivered.toList ++ value :: left ++ outbound.toList := by
      rw [Array.toList_push]
      simp
    simp only [Delivery.step]
    split
    · -- The receiver broke off, but the value counts as delivered.
      exact ⟨hr, rfl, hitems, trivial, by rintro _ ⟨⟩⟩
    · refine ⟨hr, rfl, ?_, hsound, by rintro _ ⟨⟩⟩
      show (delivered.push value).toList ++ (proceed _ _ _).held ++ _ = _
      rw [hheld]
      exact hitems

theorem Sound.step {s : Delivery} (hs : s.Sound job upDone delivered.size) (hr : outbound.AtRest)
    (signal : Bool) :
    Stepped job outbound signal upDone delivered s (s.step job outbound signal upDone delivered) := by
  obtain ⟨point, count⟩ := s
  cases point with
  | readSignal =>
    obtain ⟨hcount, hexpected⟩ := hs
    simp only [Delivery.step]
    split
    · rename_i hsignal
      exact .idle hr rfl rfl rfl ⟨hcount, rfl, hsignal⟩ (by rintro _ ⟨⟩)
    · obtain ⟨hheld, hmeets, hexit⟩ := want_spec signal upDone (s := ⟨.readSignal, count⟩) rfl hcount
        hexpected
      exact .idle hr rfl rfl hheld hmeets fun last heq => absurd heq (hexit last)
  | pop want => exact hs.step_pop hr signal
  | readUpstream =>
    simp only [Delivery.step]
    split
    · rename_i hdone
      exact .idle hr rfl rfl rfl ⟨hs.1, hdone, hs.2⟩ (by rintro _ ⟨⟩)
    · exact .idle hr rfl rfl rfl ⟨hs.1, fun e he => (hs.2 e he).le⟩ (by rintro _ ⟨⟩)
  | recheck =>
    obtain ⟨hcount, hdone, hexpected⟩ := hs
    obtain ⟨hempty, hrest, hlist, hcap⟩ := hr.exhausted
    simp only [Delivery.step]
    split
    · rename_i hexhausted
      rw [hempty, List.isEmpty_iff] at hexhausted
      exact .idle hrest hcap hlist rfl ⟨hcount, rfl, hdone, hexpected⟩ fun _ _ => hexhausted
    · exact .idle hrest hcap hlist rfl ⟨hcount, fun e he => (hexpected e he).le⟩ (by rintro _ ⟨⟩)
  | deliver left size => exact hs.step_deliver hr signal

end Delivery

end TimestampRelay
