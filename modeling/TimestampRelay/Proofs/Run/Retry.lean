/-
A burst handed on among others who may take items from the ring, raise the signal or set the neighbour's
flag between any two of its steps: what goes into the ring is the front of the burst, in order. The burst
is given up for a raised signal only after the stage has shown that it drains and has tried once more as
often as it may, and for a stopped neighbour only where the signal was found not raised just before; a
burst that goes in completely is never given up.
-/
import TimestampRelay.Proofs.Run.Handoff

namespace TimestampRelay

variable {α : Type}

/-! ## What is done about a burst -/

/-- Something that the handing on does and what it finds: an attempt with the room in the ring and the
items held, a look at the signal or at the neighbour's flag, or the change of the stage's state. -/
inductive Deed where
  | tried (room held : Nat)
  | sawSignal (raised : Bool)
  | showedDraining
  | sawNeighbour (stopped : Bool)
  deriving DecidableEq

/-- Whether it is an attempt to push. -/
def Deed.isTry : Deed → Bool
  | .tried _ _ => true
  | _ => false

namespace Handoff

/-- What the next step does. -/
def deed (o : Outlet α) (h : Handoff α) : Option Deed :=
  match h.point with
  | .attempt | .drain _ => some (.tried o.ring.room h.held.length)
  | .readSignal => some (.sawSignal o.signal)
  | .showDraining => some .showedDraining
  | .readNeighbour => some (.sawNeighbour o.neighbourDone)
  | .over _ => none

variable {o : Outlet α} {h : Handoff α}

/-- Where an attempt is logged, the step makes one. -/
theorem step_of_try (retries : Nat) (htry : (h.deed o).toList.any Deed.isTry = true) :
    h.deed o = some (.tried o.ring.room h.held.length) ∧ (h.step retries o).1.ring = (h.attempt o.ring).2.1 ∧
      (h.step retries o).2.held = (h.attempt o.ring).2.2.held ∧
      (h.step retries o).2.pushed = (h.attempt o.ring).2.2.pushed := by
  obtain ⟨held, pushed, point⟩ := h
  cases point with
  | attempt | drain left => exact ⟨rfl, rfl, rfl, rfl⟩
  | readSignal | showDraining | readNeighbour | «over» => cases htry

/-- Where none is logged, the step leaves the ring and the burst as they are. -/
theorem step_of_no_try (retries : Nat) (htry : (h.deed o).toList.any Deed.isTry = false) :
    (h.step retries o).1.ring = o.ring ∧ (h.step retries o).2.held = h.held ∧
      (h.step retries o).2.pushed = h.pushed := by
  obtain ⟨held, pushed, point⟩ := h
  cases point with
  | attempt | drain left => cases htry
  | readSignal | showDraining | readNeighbour | «over» => exact ⟨rfl, rfl, rfl⟩

end Handoff

namespace HandoffSession

/-- A session at its start. -/
def begin (outlet : Outlet α) (items : List α) : HandoffSession α where
  outlet := outlet
  handoff := .start items
  taken := #[]

/-- Moves made one after the other. -/
def applyAll (drainRetries : Nat) (s : HandoffSession α) (moves : List Move) : HandoffSession α :=
  moves.foldl (apply drainRetries) s

/-- What a move does about the burst. -/
def deed (s : HandoffSession α) : Move → List Deed
  | .step => (s.handoff.deed s.outlet).toList
  | _ => []

/-- What is done about the burst while moves are made one after the other. -/
def deeds (drainRetries : Nat) (s : HandoffSession α) : List Move → List Deed
  | [] => []
  | move :: moves => s.deed move ++ (s.apply drainRetries move).deeds drainRetries moves

theorem applyAll_concat (drainRetries : Nat) (s : HandoffSession α) (moves : List Move) (move : Move) :
    s.applyAll drainRetries (moves ++ [move]) = (s.applyAll drainRetries moves).apply drainRetries move :=
  List.foldl_concat ..

theorem deeds_concat (drainRetries : Nat) (s : HandoffSession α) (moves : List Move) (move : Move) :
    s.deeds drainRetries (moves ++ [move]) =
      s.deeds drainRetries moves ++ (s.applyAll drainRetries moves).deed move := by
  induction moves generalizing s with
  | nil => simp [deeds, applyAll]
  | cons first moves ih =>
    show s.deed first ++ (s.apply drainRetries first).deeds drainRetries (moves ++ [move]) = _
    rw [ih, ← List.append_assoc]
    rfl

end HandoffSession

/-! ## What has been done at each point -/

namespace Handoff

variable {o : Outlet α} {h : Handoff α} {retries left : Nat} {before : StageState} {log : List Deed}

/-- The signal has not been found raised, and so the stage has not begun to drain. -/
structure Quiet (log : List Deed) : Prop where
  unseen : .sawSignal true ∉ log
  unshown : .showedDraining ∉ log

/-- A stage that drains: an attempt found the ring full and then the signal was found raised. Since then
it has only tried again, and may do so `left` times more. -/
def Drained (retries left : Nat) (log : List Deed) : Prop :=
  ∃ early held tries, Quiet early ∧ 0 < held ∧
    log = early ++ .tried 0 held :: .sawSignal true :: .showedDraining :: tries ∧
    (∀ deed ∈ tries, deed.isTry) ∧ tries.length + left = retries

/-- What has been done when a burst stands at its point, and the state that the stage shows. -/
def Story (retries : Nat) (before state : StageState) (log : List Deed) (h : Handoff α) : Prop :=
  match h.point with
  | .attempt => Quiet log ∧ state = before
  | .readSignal => Quiet log ∧ state = before ∧ [.tried 0 h.held.length] <:+ log
  | .readNeighbour => Quiet log ∧ state = before ∧ [.tried 0 h.held.length, .sawSignal false] <:+ log
  | .over (some .downstreamStopped) =>
    Quiet log ∧ state = before ∧ [.tried 0 h.held.length, .sawSignal false, .sawNeighbour true] <:+ log
  | .showDraining =>
    state = before ∧ ∃ early, Quiet early ∧ log = early ++ [.tried 0 h.held.length, .sawSignal true]
  | .drain left => 0 < left ∧ Drained retries left log ∧ state = .draining
  | .over (some .shutdown) => Drained retries 0 log ∧ state = .draining
  | .over none => Quiet log ∧ state = before ∨ (∃ left, Drained retries left log) ∧ state = .draining
  | .over (some _) => False

/-- No attempt so far has found room for all that was held. -/
def Short (log : List Deed) : Prop :=
  ∀ room held, .tried room held ∈ log → room < held

theorem Quiet.concat {deed : Deed} (hq : Quiet log) (hsignal : deed ≠ .sawSignal true)
    (hshow : deed ≠ .showedDraining) : Quiet (log ++ [deed]) := by
  obtain ⟨hunseen, hunshown⟩ := hq
  constructor
  · simp [hunseen, hsignal.symm]
  · simp [hunshown, hshow.symm]

theorem Drained.tried {room held : Nat} (hd : Drained retries (left + 1) log) :
    Drained retries left (log ++ [.tried room held]) := by
  obtain ⟨early, n, tries, hquiet, hpos, rfl, htries, hcount⟩ := hd
  refine ⟨early, n, tries ++ [.tried room held], hquiet, hpos, by simp, ?_, ?_⟩
  · intro deed hmem
    rcases List.mem_append.1 hmem with hold | hnew
    · exact htries deed hold
    · rw [List.mem_singleton.1 hnew]
      rfl
  · rw [List.length_append, List.length_singleton]
    omega

/-- An attempt found the ring full, with items still held, and right after it the signal was found raised. -/
def FullUnderSignal (log : List Deed) : Prop :=
  ∃ held > 0, [.tried 0 held, .sawSignal true] <:+: log

theorem Quiet.not_fullUnderSignal (hq : Quiet log) : ¬FullUnderSignal log :=
  fun ⟨_, _, hin⟩ => hq.unseen (hin.subset (by simp))

theorem Drained.fullUnderSignal (hd : Drained retries left log) : FullUnderSignal log := by
  obtain ⟨early, held, tries, -, hpos, rfl, -⟩ := hd
  exact ⟨held, hpos, early, .showedDraining :: tries, by simp⟩

/-- Since the signal was found raised, once, the attempts made and those left are as many as the stage may
make. -/
theorem Drained.countP_add (hd : Drained retries left log) {early late : List Deed}
    (hlog : log = early ++ .sawSignal true :: late) : late.countP Deed.isTry + left = retries := by
  obtain ⟨first, held, tries, hquiet, -, hfirst, htries, hcount⟩ := hd
  have hbefore : .sawSignal true ∉ first ++ [.tried 0 held] := by simp [hquiet.unseen]
  have hafter : .sawSignal true ∉ .showedDraining :: tries := by
    intro hmem
    rcases List.mem_cons.1 hmem with heq | htry
    · cases heq
    · cases htries _ htry
  have hsplit : (first ++ [.tried 0 held]) ++ .sawSignal true :: .showedDraining :: tries =
      early ++ .sawSignal true :: late := by
    rw [← hlog, hfirst]
    simp
  obtain ⟨-, -, rfl⟩ := (List.append_cons_inj_of_notMem hbefore hafter).1 hsplit
  have hnone : ¬Deed.isTry .showedDraining := by simp [Deed.isTry]
  rw [List.countP_cons_of_neg hnone, List.countP_eq_length.2 htries, hcount]

/-! ## One step -/

/-- The handing on raises neither the signal nor the neighbour's flag. -/
theorem step_flags (retries : Nat) (o : Outlet α) (h : Handoff α) :
    (h.step retries o).1.signal = o.signal ∧ (h.step retries o).1.neighbourDone = o.neighbourDone := by
  unfold Handoff.step
  split <;> exact ⟨rfl, rfl⟩

/-- An attempt pushes what there is room for and leaves the rest. -/
theorem attempt_eq {ring : Ring α} (hr : ring.AtRest) (h : Handoff α) :
    h.attempt ring = (min h.held.length ring.room, (ring.pushAll h.held).2,
      { h with held := h.held.drop ring.room, pushed := h.pushed + min h.held.length ring.room }) := by
  obtain ⟨hn, -⟩ := hr.pushAll h.held
  have hrest : h.held.drop (ring.pushAll h.held).1 = h.held.drop ring.room := by
    rw [hn, Nat.min_comm, ← List.drop_eq_drop_min]
  unfold attempt
  rw [← hn, ← hrest]

theorem afterAttempt_story {state : StageState} {n pushed : Nat} {held : List α} (hquiet : Quiet log)
    (hstate : state = before) (hfull : n = 0 → [.tried 0 held.length] <:+ log) :
    Story retries before state log ⟨held, pushed, afterAttempt n held⟩ := by
  unfold afterAttempt
  split
  · exact .inl ⟨hquiet, hstate⟩
  · split
    · rename_i hzero
      exact ⟨hquiet, hstate, hfull hzero⟩
    · exact ⟨hquiet, hstate⟩

theorem afterDrain_story {state : StageState} {pushed : Nat} {held : List α} (hd : Drained retries left log)
    (hstate : state = .draining) : Story retries before state log ⟨held, pushed, afterDrain left held⟩ := by
  unfold afterDrain
  split
  · exact .inr ⟨⟨left, hd⟩, hstate⟩
  · split
    · rename_i hzero
      subst hzero
      exact ⟨hd, hstate⟩
    · rename_i hleft
      exact ⟨Nat.pos_of_ne_zero hleft, hd, hstate⟩

theorem Story.step (hstory : Story retries before o.state log h) (hs : h.Sound o.signal o.neighbourDone)
    (hr : o.ring.AtRest) :
    Story retries before (h.step retries o).1.state (log ++ (h.deed o).toList) (h.step retries o).2 := by
  obtain ⟨held, pushed, point⟩ := h
  cases point with
  | attempt =>
    obtain ⟨hquiet, hstate⟩ := hstory
    simp only [Handoff.step, attempt_eq hr]
    refine afterAttempt_story (hquiet.concat (by simp) (by simp)) hstate fun hzero => ⟨log, ?_⟩
    -- Nothing went in, though something is held: there was no room.
    have hpos : 0 < held.length := List.length_pos_iff.2 hs
    have hroom : o.ring.room = 0 := by omega
    simp [deed, hroom]
  | readSignal =>
    obtain ⟨hquiet, hstate, early, rfl⟩ := hstory
    have hearly : Quiet early :=
      ⟨fun h => hquiet.unseen (List.mem_append_left _ h), fun h => hquiet.unshown (List.mem_append_left _ h)⟩
    cases hsignal : o.signal with
    | true =>
      simp only [Handoff.step, deed, hsignal, if_true]
      exact ⟨hstate, early, hearly, by simp⟩
    | false =>
      simp only [Handoff.step, deed, hsignal]
      exact ⟨hquiet.concat (by simp) (by simp), hstate, early, by simp⟩
  | showDraining =>
    obtain ⟨-, early, hquiet, rfl⟩ := hstory
    refine afterDrain_story ⟨early, held.length, [], hquiet, List.length_pos_iff.2 hs.1, ?_, by simp, ?_⟩ rfl
    · simp [deed]
    · exact Nat.zero_add retries
  | drain left =>
    obtain ⟨hleft, hdrained, hstate⟩ := hstory
    rw [← Nat.sub_add_cancel hleft] at hdrained
    exact afterDrain_story hdrained.tried hstate
  | readNeighbour =>
    obtain ⟨hquiet, hstate, early, rfl⟩ := hstory
    cases hdone : o.neighbourDone with
    | true =>
      simp only [Handoff.step, deed, hdone, if_true]
      exact ⟨hquiet.concat (by simp) (by simp), hstate, early, by simp⟩
    | false =>
      simp only [Handoff.step, deed, hdone]
      exact ⟨hquiet.concat (by simp) (by simp), hstate⟩
  | «over» interrupted =>
    simp only [Handoff.step, deed, Option.toList_none, List.append_nil]
    exact hstory

/-- The handing on is over without an interruption exactly when nothing is held. -/
theorem Sound.over_none_iff {signal done : Bool} (hs : h.Sound signal done) :
    h.point = .over none ↔ h.held = [] := by
  unfold Sound at hs
  split at hs <;> simp_all

theorem Short.concat {deed : Deed} (hshort : Short log)
    (hdeed : ∀ room held, deed = .tried room held → room < held) : Short (log ++ [deed]) := by
  intro room held hmem
  rcases List.mem_append.1 hmem with hold | hnew
  · exact hshort room held hold
  · exact hdeed room held (List.mem_singleton.1 hnew).symm

/-- As long as something is held, no attempt has found room for all of it. -/
theorem Short.step (hs : h.Sound o.signal o.neighbourDone) (hr : o.ring.AtRest)
    (hshort : h.held ≠ [] → Short log) (hafter : (h.step retries o).2.held ≠ []) :
    Short (log ++ (h.deed o).toList) := by
  have hheld : h.held ≠ [] := by
    intro hnil
    have hover := hs.over_none_iff.2 hnil
    simp [Handoff.step, hover, hnil] at hafter
  obtain ⟨held, pushed, point⟩ := h
  -- An attempt that leaves something did not find room for it.
  have hleft : held.drop o.ring.room ≠ [] →
      ∀ room n, Deed.tried o.ring.room held.length = .tried room n → room < n := by
    rintro hne _ _ ⟨⟩
    simpa using hne
  cases point with
  | attempt | drain left =>
    simp only [Handoff.step, attempt_eq hr] at hafter
    exact (hshort hheld).concat (hleft hafter)
  | readSignal | showDraining | readNeighbour => exact (hshort hheld).concat (by simp)
  | «over» interrupted =>
    simp only [deed, Option.toList_none, List.append_nil]
    exact hshort hheld

/-! ## What the log says of the stage's state -/

/-- Either the signal has not been found raised, or it has and the stage is about to show that it drains, or the
stage shows it. -/
theorem Story.cases {state : StageState} (hstory : Story retries before state log h) :
    Quiet log ∧ state = before ∨
      (h.point = .showDraining ∧ state = before ∧
        ∃ early, Quiet early ∧ log = early ++ [.tried 0 h.held.length, .sawSignal true]) ∨
      (∃ left, Drained retries left log) ∧ state = .draining := by
  unfold Story at hstory
  split at hstory
  · exact .inl hstory
  · exact .inl ⟨hstory.1, hstory.2.1⟩
  · exact .inl ⟨hstory.1, hstory.2.1⟩
  · exact .inl ⟨hstory.1, hstory.2.1⟩
  · rename_i hpoint
    exact .inr (.inl ⟨hpoint, hstory⟩)
  · exact .inr (.inr ⟨⟨_, hstory.2.1⟩, hstory.2.2⟩)
  · exact .inr (.inr ⟨⟨_, hstory.1⟩, hstory.2⟩)
  · exact hstory.imp_right .inr
  · exact hstory.elim

theorem Story.state_of_fullUnderSignal {state : StageState} (hstory : Story retries before state log h)
    (hfull : FullUnderSignal log) : h.point = .showDraining ∨ state = .draining := by
  rcases hstory.cases with ⟨hquiet, -⟩ | ⟨hpoint, -⟩ | ⟨-, hstate⟩
  · exact absurd hfull hquiet.not_fullUnderSignal
  · exact .inl hpoint
  · exact .inr hstate

theorem Story.state_eq {state : StageState} (hstory : Story retries before state log h)
    (hfull : ¬FullUnderSignal log) : state = before := by
  rcases hstory.cases with ⟨-, hstate⟩ | ⟨-, hstate, -⟩ | ⟨⟨_, hdrained⟩, -⟩
  · exact hstate
  · exact hstate
  · exact absurd hdrained.fullUnderSignal hfull

theorem Story.countP_le {state : StageState} (hstory : Story retries before state log h)
    {early late : List Deed} (hlog : log = early ++ .sawSignal true :: late) :
    late.countP Deed.isTry ≤ retries := by
  rcases hstory.cases with ⟨hquiet, -⟩ | ⟨-, -, first, hquiet, hfirst⟩ | ⟨⟨_, hdrained⟩, -⟩
  · exact absurd (hlog ▸ List.mem_append_right _ List.mem_cons_self) hquiet.unseen
  · have hsplit : (first ++ [.tried 0 h.held.length]) ++ .sawSignal true :: [] =
        early ++ .sawSignal true :: late := by
      rw [← hlog, hfirst]
      simp
    obtain ⟨-, -, rfl⟩ :=
      (List.append_cons_inj_of_notMem (by simp [hquiet.unseen]) List.not_mem_nil).1 hsplit
    exact Nat.zero_le retries
  · exact Nat.le.intro (hdrained.countP_add hlog)

/-- A stage that has given a burst up to the signal has tried as often as it may. -/
theorem Story.countP_eq {state : StageState} (hstory : Story retries before state log h)
    (hpoint : h.point = .over (some .shutdown)) {early late : List Deed}
    (hlog : log = early ++ .sawSignal true :: late) : late.countP Deed.isTry = retries := by
  unfold Story at hstory
  rw [hpoint] at hstory
  exact hstory.1.countP_add hlog

end Handoff

/-! ## Whole sessions -/

namespace HandoffSession

/-- A session after some moves, told by what has been done: the ring and what was taken from it hold the
front of the burst. -/
structure Kept (retries : Nat) (outlet : Outlet α) (items : List α) (log : List Deed)
    (s : HandoffSession α) : Prop where
  atRest : s.outlet.ring.AtRest
  inOrder : s.taken.toList ++ s.outlet.ring.toList ++ s.handoff.held = outlet.ring.toList ++ items
  count : s.handoff.pushed + s.handoff.held.length = items.length
  sound : s.handoff.Sound s.outlet.signal s.outlet.neighbourDone
  story : s.handoff.Story retries outlet.state s.outlet.state log
  short : s.handoff.held ≠ [] → Handoff.Short log

variable {retries : Nat} {outlet : Outlet α} {items : List α} {log : List Deed} {s : HandoffSession α}

theorem begin_kept (hr : outlet.ring.AtRest) (retries : Nat) (items : List α) :
    (begin outlet items).Kept retries outlet items [] := by
  refine ⟨hr, rfl, Nat.zero_add _, Handoff.start_sound _ _ _, ?_, ?_⟩
  · have hquiet : Handoff.Quiet [] := ⟨List.not_mem_nil, List.not_mem_nil⟩
    cases items with
    | nil => exact .inl ⟨hquiet, rfl⟩
    | cons x xs => exact ⟨hquiet, rfl⟩
  · intro _ _ _ hmem
    cases hmem

theorem Kept.apply (hk : s.Kept retries outlet items log) (move : Move) :
    (s.apply retries move).Kept retries outlet items (log ++ s.deed move) := by
  obtain ⟨hrest, hitems, hcount, hsound, hstory, hshort⟩ := hk
  cases move with
  | step =>
    have hstep := hsound.step hrest retries
    obtain ⟨hsignal, hdone⟩ := Handoff.step_flags retries s.outlet s.handoff
    refine ⟨hstep.atRest, ?_, hstep.count.trans hcount, ?_, hstory.step hsound hrest,
      Handoff.Short.step hsound hrest hshort⟩
    · show s.taken.toList ++ (s.handoff.step retries s.outlet).1.ring.toList ++
        (s.handoff.step retries s.outlet).2.held = _
      rw [List.append_assoc, hstep.items, ← List.append_assoc, hitems]
    · show (s.handoff.step retries s.outlet).2.Sound (s.handoff.step retries s.outlet).1.signal
        (s.handoff.step retries s.outlet).1.neighbourDone
      rw [hsignal, hdone]
      exact hstep.sound
  | take count =>
    obtain ⟨-, hrest', -⟩ := hrest.popUpTo count
    simp only [deed, List.append_nil]
    refine ⟨hrest', ?_, hcount, hsound, hstory, hshort⟩
    show (s.taken.appendList (s.outlet.ring.popUpTo count).1).toList ++
      (s.outlet.ring.popUpTo count).2.toList ++ s.handoff.held = _
    rw [hrest.toList_taken, hitems]
  | raiseSignal =>
    simp only [deed, List.append_nil]
    exact ⟨hrest, hitems, hcount, hsound.mono (fun _ => rfl) id, hstory, hshort⟩
  | stopNeighbour =>
    simp only [deed, List.append_nil]
    exact ⟨hrest, hitems, hcount, hsound.mono id fun _ => rfl, hstory, hshort⟩

theorem kept_applyAll (hr : outlet.ring.AtRest) (retries : Nat) (items : List α) (moves : List Move) :
    ((begin outlet items).applyAll retries moves).Kept retries outlet items
      ((begin outlet items).deeds retries moves) := by
  induction moves using List.reverseRecOn with
  | nil => exact begin_kept hr retries items
  | append_singleton moves move ih =>
    rw [applyAll_concat, deeds_concat]
    exact ih.apply move

/-- What has gone into the ring is the front of the burst. -/
theorem Kept.front (hk : s.Kept retries outlet items log) :
    s.taken.toList ++ s.outlet.ring.toList = outlet.ring.toList ++ items.take s.handoff.pushed :=
  (Handoff.front_handed_on hk.inOrder hk.count).1

/-- A session that is run makes steps, and a helper takes from the ring what it may, one item at a time. -/
theorem run_eq_applyAll (retries : Nat) (s : HandoffSession α) (helper limit : Nat) :
    ∃ moves : List Move, s.run retries helper limit = s.applyAll retries moves ∧
      (∀ move ∈ moves, move = .step ∨ move = .take 1) ∧ moves.count (.take 1) ≤ helper := by
  induction limit generalizing s helper with
  | zero => exact ⟨[], rfl, List.forall_mem_nil _, Nat.zero_le _⟩
  | succ limit ih =>
    unfold run
    split
    · rename_i htakes
      have hpos : 0 < helper := by
        simp only [helperTakes, Bool.and_eq_true, decide_eq_true_eq] at htakes
        exact htakes.1.1
      obtain ⟨moves, heq, hkinds, hcount⟩ := ih (s.apply retries (.take 1)) (helper - 1)
      refine ⟨.take 1 :: moves, heq, List.forall_mem_cons.2 ⟨.inr rfl, hkinds⟩, ?_⟩
      rw [List.count_cons_self]
      omega
    · split
      · exact ⟨[], rfl, List.forall_mem_nil _, Nat.zero_le _⟩
      · obtain ⟨moves, heq, hkinds, hcount⟩ := ih (s.apply retries .step) helper
        refine ⟨.step :: moves, heq, List.forall_mem_cons.2 ⟨.inl rfl, hkinds⟩, ?_⟩
        rwa [List.count_cons_of_ne (by decide)]

/-- However long it is run, and whatever the helper takes, a session hands on the front of its burst. -/
theorem front_run (hr : outlet.ring.AtRest) (retries : Nat) (items : List α) (helper limit : Nat) :
    let s := (begin outlet items).run retries helper limit
    s.taken.toList ++ s.outlet.ring.toList = outlet.ring.toList ++ items.take s.handoff.pushed := by
  intro s
  obtain ⟨moves, heq, -⟩ := run_eq_applyAll retries (begin outlet items) helper limit
  have hk := kept_applyAll hr retries items moves
  rw [← heq] at hk
  exact hk.front

/-- The handing on among others, whatever the ring, the burst and the number of last attempts are, after any moves.
What went into the ring is the front of the burst in order, and it is the whole burst exactly when the handing
on is over without an interruption. It is interrupted by the signal only if that is raised, and then the stage
shows that it drains; by the neighbour only if that has stopped, found so right after the signal was found not
raised, and then the stage's state is what it was. Once it is over, the stage shows that it drains exactly if
an attempt found the ring full, with items still held, and the signal was then found raised. After that there
are at most as many attempts as the stage may still make, all of them before it gives up, and one that finds
room for all ends it without an interruption. -/
theorem handoff_among_others (outlet : Outlet α) (hring : outlet.ring.AtRest) (items : List α) (retries : Nat)
    (moves : List Move) :
    let begun := begin outlet items
    let s := begun.applyAll retries moves
    let log := begun.deeds retries moves
    s.handoff.pushed ≤ items.length ∧
    s.taken.toList ++ s.outlet.ring.toList = outlet.ring.toList ++ items.take s.handoff.pushed ∧
    (s.handoff.point = .over none ↔ s.handoff.pushed = items.length) ∧
    (∀ reason, s.handoff.point = .over (some reason) →
      reason = .shutdown ∧ s.outlet.signal = true ∧ .sawSignal true ∈ log ∧ s.outlet.state = .draining ∨
      reason = .downstreamStopped ∧ s.outlet.neighbourDone = true ∧
        [.sawSignal false, .sawNeighbour true] <:+ log ∧ s.outlet.state = outlet.state) ∧
    (Handoff.FullUnderSignal log → s.handoff.point = .showDraining ∨ s.outlet.state = .draining) ∧
    (¬Handoff.FullUnderSignal log → s.outlet.state = outlet.state) ∧
    ∀ early late, log = early ++ .sawSignal true :: late →
      late.countP Deed.isTry ≤ retries ∧
      (s.handoff.point = .over (some .shutdown) → late.countP Deed.isTry = retries) ∧
      ∀ room held, .tried room held ∈ late → held ≤ room → s.handoff.point = .over none := by
  intro begun s log
  have hk : s.Kept retries outlet items log := kept_applyAll hring retries items moves
  have hcount := hk.count
  have hover : s.handoff.point = .over none ↔ s.handoff.pushed = items.length := by
    rw [hk.sound.over_none_iff, ← List.length_eq_zero_iff]
    omega
  refine ⟨by omega, hk.front, hover, ?_, hk.story.state_of_fullUnderSignal, hk.story.state_eq, ?_⟩
  · intro reason hpoint
    have hsound := hk.sound
    have hstory := hk.story
    unfold Handoff.Sound at hsound
    unfold Handoff.Story at hstory
    rw [hpoint] at hsound hstory
    cases reason with
    | shutdown =>
      obtain ⟨_, _, hin⟩ := hstory.1.fullUnderSignal
      exact .inl ⟨rfl, hsound.2, hin.subset (by simp), hstory.2⟩
    | downstreamStopped =>
      obtain ⟨-, hstate, hlast⟩ := hstory
      exact .inr ⟨rfl, hsound.2, (List.suffix_cons _ _).trans hlast, hstate⟩
    | _ => exact hsound.elim
  · intro early late hlog
    refine ⟨hk.story.countP_le hlog, fun hpoint => hk.story.countP_eq hpoint hlog, ?_⟩
    intro room held hmem hroom
    rw [hk.sound.over_none_iff]
    by_contra hheld
    have hlate : .tried room held ∈ log := by
      rw [hlog]
      exact List.mem_append_right _ (List.mem_cons_of_mem _ hmem)
    exact absurd (hk.short hheld room held hlate) hroom.not_gt

/-- A burst of five and a ring of two slots whose cursors run over 2^64. The first attempt fills the ring; then the
signal is raised and the neighbour stops, both before either is looked at. One of the two last attempts finds
room for one item, the other for the rest, and so the burst is all in although the stage has drained. -/
theorem last_attempt_completes_burst :
    let outlet : Outlet Nat :=
      { ring := .startingAt ⟨1, by decide⟩ (0 - 3), signal := false, neighbourDone := false, state := .running }
    let begun := begin outlet [1, 2, 3, 4, 5]
    let moves := [.step, .step, .raiseSignal, .stopNeighbour, .step, .step, .take 1, .step, .take 2, .step]
    let s := begun.applyAll 2 moves
    begun.deeds 2 moves =
        [.tried 2 5, .tried 0 3] ++ .sawSignal true :: [.showedDraining, .tried 1 3, .tried 2 2] ∧
      s.handoff.point = .over none ∧ s.outlet.state = .draining ∧
      s.taken.toList ++ s.outlet.ring.toList = [1, 2, 3, 4, 5] := by
  intro outlet begun moves s
  have hbegun : begin outlet [1, 2, 3, 4, 5] = begun := rfl
  have hs : begun.applyAll 2 moves = s := rfl
  have hempty : outlet.ring.toList = [] := Ring.toList_startingAt _ _
  have hlog : begun.deeds 2 moves =
      [.tried 2 5, .tried 0 3] ++ .sawSignal true :: [.showedDraining, .tried 1 3, .tried 2 2] := by
    decide +kernel
  have hfull : Handoff.FullUnderSignal (begun.deeds 2 moves) := by
    rw [hlog]
    exact ⟨3, by decide, [.tried 2 5], [.showedDraining, .tried 1 3, .tried 2 2], rfl⟩
  obtain ⟨-, hfront, hover, -, hdrains, -, hafter⟩ :=
    handoff_among_others outlet (Ring.startingAt_atRest _ _) [1, 2, 3, 4, 5] 2 moves
  rw [hbegun] at hfront hover hdrains hafter
  rw [hs] at hfront hover hdrains hafter
  have hdone := (hafter _ _ hlog).2.2 2 2 (by simp) le_rfl
  have hstate := (hdrains hfull).resolve_left (by rw [hdone]; simp)
  rw [hempty, hover.1 hdone] at hfront
  exact ⟨hlog, hdone, hstate, hfront⟩

end HandoffSession

end TimestampRelay
