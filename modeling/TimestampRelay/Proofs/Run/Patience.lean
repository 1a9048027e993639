/-
How long the loop of a stage can go on in vain. A stage is kept waiting only where it holds items in
front of a full ring, or finds an empty one behind a neighbour that has not stopped. A stage that is not
kept waiting leaves its loop, or moves an item, after a number of steps that its position sets a limit to.
-/
import TimestampRelay.Proofs.Run.Stages

namespace TimestampRelay

/-- A step that goes on leads to a loop that is below a limit. -/
def Next.Below {β : Type} (patience : β → Nat) (limit : Nat) (next : Next β) : Prop :=
  next.Meets (fun state => patience state < limit) fun _ _ => True

/-- An empty ring has room. -/
theorem Ring.room_pos {α : Type} {r : Ring α} (h : r.toList = []) : 0 < r.room := by
  unfold room
  rw [h]
  exact r.capacity.slots_pos

/-- A ring that takes an item in, or a reason to give up what is held. -/
def Outlet.Open {α : Type} (o : Outlet α) : Prop :=
  o.signal = true ∨ o.neighbourDone = true ∨ 0 < o.ring.room

/-- An outlet stays open as long as its ring holds what it held. -/
theorem Outlet.Open.mono {α : Type} {o o' : Outlet α} (h : o.Open) (hsignal : o.signal = true → o'.signal = true)
    (hdone : o.neighbourDone = true → o'.neighbourDone = true) (hcap : o'.ring.capacity = o.ring.capacity)
    (hlist : o'.ring.toList = o.ring.toList) : o'.Open := by
  refine h.imp hsignal fun h => h.imp hdone fun hroom => ?_
  unfold Ring.room at hroom ⊢
  rwa [hcap, hlist]

/-! ## Bursts -/

namespace Handoff

variable {α : Type} {o : Outlet α} {h : Handoff α} {drainRetries : Nat}

/-- A burst that is still to be handed on, with no more attempts left than a stage has that drains. -/
def Pending (drainRetries : Nat) (h : Handoff α) : Prop :=
  match h.point with
  | .attempt | .readSignal | .showDraining | .readNeighbour => True
  | .drain left => left ≤ drainRetries
  | .over _ => False

/-- Steps that a burst can make in vain at most, as long as there is room, or a reason to give it up. Under a
raised signal it is on its way through the attempts that are left, behind a neighbour that has stopped to
the look that finds this, and otherwise to the next attempt. -/
def patience (drainRetries : Nat) (signal neighbourDone : Bool) (h : Handoff α) : Nat :=
  match h.point with
  | .over _ => 0
  | .drain left => left
  | .showDraining => drainRetries + 1
  | .readSignal => if signal then drainRetries + 2 else if neighbourDone then 1 else 2
  | .attempt => if signal then drainRetries + 3 else if neighbourDone then 2 else 0
  | .readNeighbour => if neighbourDone then 0 else if signal then drainRetries + 4 else 1

theorem Pending.not_over (hp : h.Pending drainRetries) (interrupted : Option ExitReason) :
    h.point ≠ .over interrupted := by
  intro hover
  unfold Pending at hp
  rw [hover] at hp
  exact hp

theorem start_pending (drainRetries : Nat) {items : List α} (hne : items ≠ []) :
    (start items).Pending drainRetries := by
  cases items with
  | nil => exact absurd rfl hne
  | cons => trivial

theorem afterAttempt_pending {n : Nat} {held : List α} (pushed : Nat)
    (hgo : ∀ interrupted, afterAttempt n held ≠ .over interrupted) :
    Pending drainRetries ⟨held, pushed, afterAttempt n held⟩ := by
  unfold afterAttempt at hgo ⊢
  split
  · rename_i hnil
    exact absurd (if_pos hnil) (hgo none)
  · split <;> trivial

theorem afterDrain_pending {left : Nat} {held : List α} (pushed : Nat) (hle : left ≤ drainRetries)
    (hgo : ∀ interrupted, afterDrain left held ≠ .over interrupted) :
    Pending drainRetries ⟨held, pushed, afterDrain left held⟩ := by
  unfold afterDrain at hgo ⊢
  split
  · rename_i hnil
    exact absurd (if_pos hnil) (hgo none)
  · rename_i hne
    split
    · rename_i hzero
      exact absurd (by rw [if_neg hne, if_pos hzero]) (hgo (some .shutdown))
    · exact hle

theorem Pending.step (hp : h.Pending drainRetries)
    (hgo : ∀ interrupted, (h.step drainRetries o).2.point ≠ .over interrupted) :
    (h.step drainRetries o).2.Pending drainRetries := by
  obtain ⟨held, pushed, point⟩ := h
  cases point with
  | attempt => exact afterAttempt_pending _ hgo
  | readSignal =>
    simp only [Handoff.step]
    split <;> trivial
  | showDraining => exact afterDrain_pending _ le_rfl hgo
  | drain left => exact afterDrain_pending _ (le_trans (Nat.sub_le left 1) hp) hgo
  | readNeighbour =>
    simp only [Handoff.step] at hgo ⊢
    split
    · rename_i hdone
      exact absurd (if_pos hdone) (hgo (some .downstreamStopped))
    · trivial
  | «over» interrupted => exact absurd rfl (hgo interrupted)

theorem Pending.patience_le (hp : h.Pending drainRetries) (signal neighbourDone : Bool) :
    h.patience drainRetries signal neighbourDone ≤ drainRetries + 4 := by
  obtain ⟨held, pushed, point⟩ := h
  cases point with
  | attempt | readSignal | readNeighbour =>
    simp only [patience]
    split
    · omega
    · split <;> omega
  | showDraining => exact Nat.le_add_right _ 3
  | drain left => exact le_trans hp (Nat.le_add_right _ 4)
  | «over» interrupted => exact hp.elim

/-- An attempt that moves nothing found the ring full, and changes nothing. -/
theorem attempt_in_vain {ring : Ring α} (hr : ring.AtRest) (hheld : h.held ≠ []) :
    ring.toList.length < (h.attempt ring).2.1.toList.length ∨
      ring.room = 0 ∧ (h.attempt ring).2.1.toList = ring.toList ∧ (h.attempt ring).1 = 0 ∧
        (h.attempt ring).2.2 = h := by
  obtain ⟨hn, -, hlist, -⟩ := hr.pushAll h.held
  rcases Nat.eq_zero_or_pos ring.room with hroom | hroom
  · rw [hroom, Nat.min_zero] at hn
    rw [hroom, List.take_zero, List.append_nil] at hlist
    refine .inr ⟨hroom, hlist, hn, ?_⟩
    show { h with held := h.held.drop (ring.pushAll h.held).1, pushed := h.pushed + (ring.pushAll h.held).1 } = h
    rw [hn]
    rfl
  · refine .inl ?_
    have hpos := List.length_pos_iff.2 hheld
    show _ < (ring.pushAll h.held).2.toList.length
    rw [hlist, List.length_append, List.length_take]
    omega

/-- A step moves an item, or gives the burst up, or leaves it with less patience. -/
theorem Sound.gets_on (hs : h.Sound o.signal o.neighbourDone) (hp : h.Pending drainRetries)
    (hr : o.ring.AtRest) (ho : o.Open) :
    o.ring.toList.length < (h.step drainRetries o).1.ring.toList.length ∨
      (h.step drainRetries o).1.ring.toList = o.ring.toList ∧
        ((∃ reason, (h.step drainRetries o).2.point = .over (some reason)) ∨
          (h.step drainRetries o).2.Pending drainRetries ∧
            (h.step drainRetries o).2.patience drainRetries o.signal o.neighbourDone <
              h.patience drainRetries o.signal o.neighbourDone) := by
  obtain ⟨held, pushed, point⟩ := h
  cases point with
  | attempt =>
    have hheld : held ≠ [] := hs
    rcases attempt_in_vain (h := ⟨held, pushed, .attempt⟩) hr hheld with hmoved | ⟨hroom, hlist, hn, hsame⟩
    · exact .inl hmoved
    · refine .inr ⟨hlist, .inr ?_⟩
      have hstep : (Handoff.step drainRetries o ⟨held, pushed, .attempt⟩).2 = ⟨held, pushed, .readSignal⟩ := by
        simp only [Handoff.step, hn, hsame, afterAttempt, List.isEmpty_iff, hheld, if_false, if_true]
      rw [hstep]
      refine ⟨trivial, ?_⟩
      -- With the ring full, the signal or the neighbour's flag is up.
      rcases ho with hsignal | hdone | hpos
      · simp [patience, hsignal]
      · cases o.signal <;> simp [patience, hdone]
      · omega
  | readSignal =>
    refine .inr ⟨rfl, .inr ?_⟩
    simp only [Handoff.step]
    split
    · rename_i hsignal
      refine ⟨trivial, ?_⟩
      simp [patience, hsignal]
    · rename_i hsignal
      refine ⟨trivial, ?_⟩
      cases hdone : o.neighbourDone <;> simp [patience, hsignal]
  | showDraining =>
    refine .inr ⟨rfl, ?_⟩
    have hheld : held ≠ [] := hs.1
    simp only [Handoff.step, afterDrain, List.isEmpty_iff, hheld, if_false]
    split
    · exact .inl ⟨_, rfl⟩
    · exact .inr ⟨le_refl drainRetries, Nat.lt_succ_self drainRetries⟩
  | drain left =>
    have hheld : held ≠ [] := hs.1
    rcases attempt_in_vain (h := ⟨held, pushed, .drain left⟩) hr hheld with hmoved | ⟨-, hlist, hn, hsame⟩
    · exact .inl hmoved
    · refine .inr ⟨hlist, ?_⟩
      simp only [Handoff.step, hsame, afterDrain, List.isEmpty_iff, hheld, if_false]
      split
      · exact .inl ⟨_, rfl⟩
      · have hle : left ≤ drainRetries := hp
        refine .inr ⟨le_trans (Nat.sub_le left 1) hle, ?_⟩
        show left - 1 < left
        omega
  | readNeighbour =>
    refine .inr ⟨rfl, ?_⟩
    simp only [Handoff.step]
    split
    · exact .inl ⟨_, rfl⟩
    · rename_i hdone
      refine .inr ⟨trivial, ?_⟩
      cases hsignal : o.signal <;> simp [patience, hdone]
  | «over» interrupted => exact hp.elim

end Handoff

/-! ## The source -/

namespace Intake

variable {job : Job} {o : Outlet Descriptor} {s : Intake} {calls drainRetries : Nat}

/-- The source in its loop, with a burst at hand only if it is still to be handed on. -/
def Poised (drainRetries : Nat) (s : Intake) : Prop :=
  match s.point with
  | .push burst _ => burst.Pending drainRetries
  | .readSignal | .readNeighbour | .pull _ => True

/-- Steps that the source can make in vain at most. -/
def patience (drainRetries : Nat) (signal downDone : Bool) (s : Intake) : Nat :=
  match s.point with
  | .readSignal => drainRetries + 7
  | .readNeighbour => drainRetries + 6
  | .pull _ => drainRetries + 5
  | .push burst _ => burst.patience drainRetries signal downDone

theorem handOn_poised {held : Array Descriptor} (hne : held.isEmpty ≠ true) (isLast : Bool) (tally : Tally) :
    (handOn held isLast tally).Poised drainRetries := by
  refine Handoff.start_pending drainRetries ?_
  rwa [ne_eq, Array.toList_eq_nil_iff, ← Array.isEmpty_iff]

theorem handOn_patience_lt {held : Array Descriptor} (hne : held.isEmpty ≠ true) (isLast : Bool) (tally : Tally)
    (signal downDone : Bool) :
    (handOn held isLast tally).patience drainRetries signal downDone < drainRetries + 5 := by
  have hp : (Handoff.start held.toList).Pending drainRetries := handOn_poised hne isLast tally
  exact Nat.lt_succ_of_le (hp.patience_le signal downDone)

theorem gather_poised (burst : Nat) (held : Array Descriptor) (tally : Tally) :
    (gather burst held tally).Meets (Poised drainRetries) fun _ _ => True := by
  unfold gather
  split
  · trivial
  · split
    · trivial
    · rename_i hne
      exact handOn_poised hne false tally

theorem close_poised (held : Array Descriptor) (tally : Tally) :
    (close held tally).Meets (Poised drainRetries) fun _ _ => True := by
  unfold close
  split
  · trivial
  · rename_i hne
    exact handOn_poised hne true tally

/-- A burst that is still to be handed on is gone on with. -/
theorem afterPush_of_pending {burst : Handoff Descriptor} (hp : burst.Pending drainRetries) (isLast : Bool)
    (tally : Tally) : afterPush burst isLast tally = .loop ⟨.push burst isLast, tally⟩ := by
  unfold afterPush
  split
  · rename_i hover
    exact absurd hover (hp.not_over _)
  · rfl

theorem afterPush_poised {burst : Handoff Descriptor} (isLast : Bool) (tally : Tally)
    (hp : (∀ interrupted, burst.point ≠ .over interrupted) → burst.Pending drainRetries) :
    (afterPush burst isLast tally).Meets (Poised drainRetries) fun _ _ => True := by
  unfold afterPush
  split
  · split
    · trivial
    · split <;> trivial
  · rename_i hgo
    exact hp hgo

theorem Poised.step (hp : s.Poised job.drainRetries) (o : Outlet Descriptor) (calls : Nat) :
    (s.step job o calls).2.2.Meets (Poised job.drainRetries) fun _ _ => True := by
  obtain ⟨point, tally⟩ := s
  cases point with
  | readSignal =>
    simp only [Intake.step]
    split <;> trivial
  | readNeighbour =>
    simp only [Intake.step]
    split
    · trivial
    · exact gather_poised _ _ _
  | pull held =>
    simp only [Intake.step]
    split
    · exact gather_poised _ _ _
    · exact close_poised _ _
    · trivial
  | push burst isLast => exact afterPush_poised _ _ fun hgo => Handoff.Pending.step hp hgo

theorem Poised.patience_le (hp : s.Poised drainRetries) (signal downDone : Bool) :
    s.patience drainRetries signal downDone ≤ drainRetries + 7 := by
  obtain ⟨point, tally⟩ := s
  cases point with
  | readSignal => exact le_rfl
  | readNeighbour => exact Nat.le_succ _
  | pull held => exact Nat.le_add_right _ 2
  | push burst isLast => exact le_trans (Handoff.Pending.patience_le hp signal downDone) (Nat.le_add_right _ 3)

/-- A step of a source that is not kept waiting pulls an event, or pushes one, or leaves less patience. -/
theorem Sound.gets_on (hs : s.Sound job o.signal o.neighbourDone calls) (hp : s.Poised job.drainRetries)
    (hr : o.ring.AtRest) (ho : o.Open) :
    (job.workload.answered calls).length < (job.workload.answered (s.step job o calls).2.1).length ∨
      o.ring.toList.length < (s.step job o calls).1.ring.toList.length ∨
      (s.step job o calls).1.ring.toList = o.ring.toList ∧
        (s.step job o calls).2.2.Below (patience job.drainRetries o.signal o.neighbourDone)
          (s.patience job.drainRetries o.signal o.neighbourDone) := by
  obtain ⟨point, tally⟩ := s
  cases point with
  | readSignal =>
    refine .inr (.inr ⟨rfl, ?_⟩)
    simp only [Intake.step]
    split
    · trivial
    · exact Nat.lt_succ_self _
  | readNeighbour =>
    refine .inr (.inr ⟨rfl, ?_⟩)
    simp only [Intake.step, gather]
    split
    · trivial
    · split
      · exact Nat.lt_succ_self _
      · split
        · trivial
        · rename_i hne
          exact Nat.lt_succ_of_lt (handOn_patience_lt hne _ _ _ _)
  | pull held =>
    have hsucc := job.workload.answered_succ calls
    cases hfeed : job.workload.feed calls with
    | event d =>
      rw [hfeed] at hsucc
      refine .inl ?_
      show _ < (job.workload.answered (calls + 1)).length
      rw [hsucc, List.length_append]
      exact Nat.lt_succ_self _
    | ended =>
      refine .inr (.inr ⟨rfl, ?_⟩)
      simp only [Intake.step, hfeed, close]
      split
      · trivial
      · rename_i hne
        exact handOn_patience_lt hne _ _ _ _
    | broken =>
      refine .inr (.inr ⟨rfl, ?_⟩)
      simp only [Intake.step, hfeed]
      trivial
  | push burst isLast =>
    obtain ⟨-, -, hburst, -⟩ := hs
    rcases hburst.gets_on hp hr ho with hmoved | ⟨hlist, ⟨reason, hover⟩ | ⟨hpending, hless⟩⟩
    · exact .inr (.inl hmoved)
    · refine .inr (.inr ⟨hlist, ?_⟩)
      simp only [Intake.step, afterPush, hover]
      trivial
    · refine .inr (.inr ⟨hlist, ?_⟩)
      simp only [Intake.step, afterPush_of_pending hpending]
      exact hless

end Intake

/-! ## The extender -/

namespace Extension

variable {job : Job} {inbound : Ring Descriptor} {upDone : Bool} {o : Outlet UInt64} {s : Extension}
  {drainRetries : Nat}

/-- The extender in its loop, with a burst at hand only if it is still to be handed on. -/
def Poised (drainRetries : Nat) (s : Extension) : Prop :=
  match s.point with
  | .push burst => burst.Pending drainRetries
  | .readSignal | .readDownstream | .pop | .readUpstream | .recheck => True

/-- Steps that the extender can make in vain at most. In front of an empty ring it is on its way to a look that
finds a reason to stop, in front of one that holds items to the next pop. -/
def patience (drainRetries : Nat) (signal downDone empty : Bool) (s : Extension) : Nat :=
  match s.point with
  | .readSignal => if empty then (if signal then 0 else if downDone then 1 else 5) else 2
  | .readDownstream => if empty then (if downDone then 0 else 4) else 1
  | .pop => if empty then 3 else 0
  | .readUpstream => if empty then 2 else 4
  | .recheck => if empty then 0 else 3
  | .push burst => burst.patience drainRetries signal downDone

theorem take_poised (s : Extension) (popped : List Descriptor) : (s.take popped).Poised drainRetries := by
  unfold take
  split
  · trivial
  · rename_i hne
    rw [Unwrapper.byLanes_eq]
    refine Handoff.start_pending drainRetries ?_
    rwa [ne_eq, ← List.length_eq_zero_iff, Unwrapper.length_values, List.length_map, List.length_eq_zero_iff,
      ← List.isEmpty_iff]

theorem afterPush_of_pending {burst : Handoff UInt64} (hp : burst.Pending drainRetries) (s : Extension) :
    s.afterPush burst = .loop { s with point := .push burst } := by
  unfold afterPush
  split
  · rename_i hover
    exact absurd hover (hp.not_over _)
  · rfl

theorem afterPush_poised {burst : Handoff UInt64} (s : Extension)
    (hp : (∀ interrupted, burst.point ≠ .over interrupted) → burst.Pending drainRetries) :
    (s.afterPush burst).Meets (Poised drainRetries) fun _ _ => True := by
  unfold afterPush
  split
  · split <;> trivial
  · rename_i hgo
    exact hp hgo

theorem Poised.step (hp : s.Poised job.drainRetries) (inbound : Ring Descriptor) (upDone : Bool)
    (o : Outlet UInt64) :
    (s.step job inbound upDone o).2.2.Meets (Poised job.drainRetries) fun _ _ => True := by
  obtain ⟨point, unwrapper, tally⟩ := s
  cases point with
  | readSignal | readDownstream | recheck =>
    simp only [Extension.step]
    split <;> trivial
  | pop => exact take_poised _ _
  | readUpstream =>
    simp only [Extension.step]
    split <;> trivial
  | push burst => exact afterPush_poised _ fun hgo => Handoff.Pending.step hp hgo

theorem Poised.patience_le (hp : s.Poised drainRetries) (signal downDone empty : Bool) :
    s.patience drainRetries signal downDone empty ≤ drainRetries + 7 := by
  obtain ⟨point, unwrapper, tally⟩ := s
  cases point with
  | push burst => exact le_trans (Handoff.Pending.patience_le hp signal downDone) (Nat.le_add_right _ 3)
  | readSignal => cases empty <;> cases signal <;> cases downDone <;> simp [patience]
  | readDownstream => cases empty <;> cases downDone <;> simp [patience]
  | pop | readUpstream | recheck => cases empty <;> simp [patience]

/-- A step of an extender that is not kept waiting pops a descriptor, or pushes a value, or leaves less
patience. -/
theorem Sound.gets_on (hs : s.Sound job o.signal upDone o.neighbourDone) (hp : s.Poised job.drainRetries)
    (hin : inbound.AtRest) (hr : o.ring.AtRest) (ho : o.Open)
    (hwork : o.signal = true ∨ o.neighbourDone = true ∨ upDone = true ∨ inbound.toList ≠ [])
    (hburst : 0 < job.burst) :
    (s.step job inbound upDone o).1.toList.length < inbound.toList.length ∨
      o.ring.toList.length < (s.step job inbound upDone o).2.1.ring.toList.length ∨
      (s.step job inbound upDone o).1.toList = inbound.toList ∧
        (s.step job inbound upDone o).2.1.ring.toList = o.ring.toList ∧
        (s.step job inbound upDone o).2.2.Below
          (patience job.drainRetries o.signal o.neighbourDone inbound.toList.isEmpty)
          (s.patience job.drainRetries o.signal o.neighbourDone inbound.toList.isEmpty) := by
  obtain ⟨point, unwrapper, tally⟩ := s
  cases point with
  | readSignal =>
    refine .inr (.inr ⟨rfl, rfl, ?_⟩)
    simp only [Extension.step]
    split
    · trivial
    · rename_i hsignal
      show patience _ _ _ _ _ < patience _ _ _ _ _
      cases inbound.toList.isEmpty <;> cases o.neighbourDone <;> simp [patience, hsignal]
  | readDownstream =>
    refine .inr (.inr ⟨rfl, rfl, ?_⟩)
    simp only [Extension.step]
    split
    · trivial
    · rename_i hdone
      show patience _ _ _ _ _ < patience _ _ _ _ _
      cases inbound.toList.isEmpty <;> simp [patience, hdone]
  | pop =>
    obtain ⟨htake, -, hdrop, -⟩ := hin.popUpTo job.burst
    cases hempty : inbound.toList with
    | nil =>
      rw [hempty, List.drop_nil] at hdrop
      rw [hempty, List.take_nil] at htake
      refine .inr (.inr ⟨hdrop, rfl, ?_⟩)
      simp only [Extension.step, htake]
      exact Nat.lt_succ_self 2
    | cons d rest =>
      refine .inl ?_
      show (inbound.popUpTo job.burst).2.toList.length < _
      rw [hdrop, hempty, List.length_drop, List.length_cons]
      omega
  | readUpstream =>
    refine .inr (.inr ⟨rfl, rfl, ?_⟩)
    simp only [Extension.step]
    split
    · show patience _ _ _ _ _ < patience _ _ _ _ _
      cases inbound.toList.isEmpty <;> simp [patience]
    · rename_i hup
      show patience _ _ _ _ _ < patience _ _ _ _ _
      cases hempty : inbound.toList with
      | nil =>
        -- The source goes on, so there is a reason to stop that the next looks find.
        rcases hwork with hsignal | hdone | hup' | hne
        · simp [patience, hsignal]
        · cases o.signal <;> simp [patience, hdone]
        · exact absurd hup' hup
        · exact absurd hempty hne
      | cons d rest => simp [patience]
  | recheck =>
    obtain ⟨hexhausted, -, hlist, -⟩ := hin.exhausted
    refine .inr (.inr ⟨hlist, rfl, ?_⟩)
    simp only [Extension.step, hexhausted]
    split
    · trivial
    · rename_i hne
      show patience _ _ _ _ _ < patience _ _ _ _ _
      simp [patience, hne]
  | push burst =>
    rcases hs.1.gets_on hp hr ho with hmoved | ⟨hlist, ⟨reason, hover⟩ | ⟨hpending, hless⟩⟩
    · exact .inr (.inl hmoved)
    · refine .inr (.inr ⟨rfl, hlist, ?_⟩)
      simp only [Extension.step, afterPush, hover]
      trivial
    · refine .inr (.inr ⟨rfl, hlist, ?_⟩)
      simp only [Extension.step, afterPush_of_pending hpending]
      exact hless

end Extension

/-! ## The sink -/

namespace Delivery

variable {job : Job} {outbound : Ring UInt64} {signal upDone : Bool} {delivered : Array UInt64} {s : Delivery}

/-- The sink in its loop, wanting items where it pops and with items left where it delivers. -/
def Poised (s : Delivery) : Prop :=
  match s.point with
  | .pop want => 0 < want
  | .deliver left _ => left ≠ []
  | .readSignal | .readUpstream | .recheck => True

/-- Steps that the sink can make in vain at most, on the same ways as the extender. -/
def patience (signal empty : Bool) (s : Delivery) : Nat :=
  match s.point with
  | .readSignal => if signal then 0 else if empty then 3 else 1
  | .pop _ => if empty then 2 else 0
  | .readUpstream => if empty then 1 else 3
  | .recheck => if empty then 0 else 2
  | .deliver _ _ => 0

theorem want_poised (hburst : 0 < job.burst) (s : Delivery) :
    (s.want job).Meets Poised fun _ _ => True := by
  unfold want
  split
  · rename_i expected _
    split
    · trivial
    · show 0 < min job.burst (expected - s.count)
      omega
  · exact hburst

theorem proceed_poised (s : Delivery) (left : List UInt64) (size : Nat) : (s.proceed left size).Poised := by
  unfold proceed
  split
  · trivial
  · rename_i hne
    rwa [List.isEmpty_iff] at hne

theorem step_poised (hburst : 0 < job.burst) (outbound : Ring UInt64) (signal upDone : Bool)
    (delivered : Array UInt64) (s : Delivery) :
    (s.step job outbound signal upDone delivered).2.2.Meets Poised fun _ _ => True := by
  obtain ⟨point, count⟩ := s
  cases point with
  | readSignal =>
    simp only [Delivery.step]
    split
    · trivial
    · exact want_poised hburst _
  | pop want =>
    simp only [Delivery.step]
    split
    · trivial
    · exact proceed_poised _ _ _
  | readUpstream | recheck =>
    simp only [Delivery.step]
    split <;> trivial
  | deliver left size =>
    cases left with
    | nil => exact proceed_poised ⟨.deliver [] size, count⟩ [] size
    | cons value left =>
      simp only [Delivery.step]
      split
      · trivial
      · exact proceed_poised _ _ _

theorem patience_le (signal empty : Bool) (s : Delivery) : s.patience signal empty ≤ 3 := by
  obtain ⟨point, count⟩ := s
  cases point <;> cases signal <;> cases empty <;> simp [patience]

/-- A step of a sink that is not kept waiting pops a value, or delivers one, or leaves less patience. -/
theorem Poised.gets_on (hp : s.Poised) (hr : outbound.AtRest)
    (hwork : signal = true ∨ upDone = true ∨ outbound.toList ≠ []) :
    (s.step job outbound signal upDone delivered).1.toList.length < outbound.toList.length ∨
      delivered.size < (s.step job outbound signal upDone delivered).2.1.size ∨
      (s.step job outbound signal upDone delivered).1.toList = outbound.toList ∧
        (s.step job outbound signal upDone delivered).2.2.Below (patience signal outbound.toList.isEmpty)
          (s.patience signal outbound.toList.isEmpty) := by
  obtain ⟨point, count⟩ := s
  cases point with
  | readSignal =>
    refine .inr (.inr ⟨rfl, ?_⟩)
    simp only [Delivery.step]
    split
    · trivial
    · rename_i hsignal
      -- Whatever is wanted, the next step pops.
      have hpop : ∀ want, patience signal outbound.toList.isEmpty ⟨.pop want, count⟩ <
          patience signal outbound.toList.isEmpty ⟨.readSignal, count⟩ := by
        intro want
        cases outbound.toList.isEmpty <;> simp [patience, hsignal]
      unfold want
      split
      · split
        · trivial
        · exact hpop _
      · exact hpop _
  | pop want =>
    obtain ⟨htake, -, hdrop, -⟩ := hr.popUpTo want
    cases hempty : outbound.toList with
    | nil =>
      rw [hempty, List.drop_nil] at hdrop
      rw [hempty, List.take_nil] at htake
      refine .inr (.inr ⟨hdrop, ?_⟩)
      simp only [Delivery.step, htake]
      exact Nat.lt_succ_self 1
    | cons value rest =>
      have hwant : 0 < want := hp
      refine .inl ?_
      show (outbound.popUpTo want).2.toList.length < _
      rw [hdrop, hempty, List.length_drop, List.length_cons]
      omega
  | readUpstream =>
    refine .inr (.inr ⟨rfl, ?_⟩)
    simp only [Delivery.step]
    split
    · show patience _ _ _ < patience _ _ _
      cases outbound.toList.isEmpty <;> simp [patience]
    · rename_i hup
      show patience _ _ _ < patience _ _ _
      cases hempty : outbound.toList with
      | nil =>
        rcases hwork with hsignal | hup' | hne
        · simp [patience, hsignal]
        · exact absurd hup' hup
        · exact absurd hempty hne
      | cons value rest => cases signal <;> simp [patience]
  | recheck =>
    obtain ⟨hexhausted, -, hlist, -⟩ := hr.exhausted
    refine .inr (.inr ⟨hlist, ?_⟩)
    simp only [Delivery.step, hexhausted]
    split
    · trivial
    · rename_i hne
      show patience _ _ _ < patience _ _ _
      cases signal <;> simp [patience, hne]
  | deliver left size =>
    cases left with
    | nil => exact absurd rfl hp
    | cons value left =>
      refine .inr (.inl ?_)
      show _ < (delivered.push value).size
      rw [Array.size_push]
      exact Nat.lt_succ_self _

end Delivery

end TimestampRelay
