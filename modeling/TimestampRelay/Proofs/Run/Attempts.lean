/-
How often a burst is tried. From when the signal is raised or the neighbour behind the ring has stopped, there
are no more attempts than the burst has items and the stage may make when it drains, and one more, whatever
others take from the ring; and behind them the handing on is over. Where neither ever happens, a consumer that
takes something between any two attempts lets the whole burst in, with one attempt more than it has items.
-/
import TimestampRelay.Proofs.Run.Retry

namespace TimestampRelay

variable {α : Type}

/-! ## One step -/

namespace Handoff

variable {o : Outlet α} {h : Handoff α} {retries : Nat}

/-- Attempts that can still be made on a burst whose stage is to stop, its neighbour having stopped or not. Each
that leads to another one behind it pushes an item, until the signal or the flag is looked at. -/
def triesLeft (retries : Nat) (neighbourDone : Bool) (h : Handoff α) : Nat :=
  match h.point with
  | .attempt => h.held.length + retries
  | .readSignal | .showDraining => retries
  | .drain left => left
  | .readNeighbour => if neighbourDone then 0 else h.held.length + retries
  | .over _ => 0

/-- A neighbour that stops leaves no more attempts. -/
theorem triesLeft_done_le (retries : Nat) (neighbourDone : Bool) (h : Handoff α) :
    h.triesLeft retries true ≤ h.triesLeft retries neighbourDone := by
  obtain ⟨held, pushed, point⟩ := h
  cases point with
  | readNeighbour => exact Nat.zero_le _
  | attempt | readSignal | showDraining | drain | «over» => exact le_rfl

/-- A stage that drains has no more attempts left than it may make. -/
theorem Story.triesLeft_le {before state : StageState} {log : List Deed} (hstory : Story retries before state log h)
    (neighbourDone : Bool) : h.triesLeft retries neighbourDone ≤ h.held.length + retries := by
  obtain ⟨held, pushed, point⟩ := h
  cases point with
  | attempt => exact le_rfl
  | readSignal | showDraining => exact Nat.le_add_left _ _
  | drain left =>
    obtain ⟨-, ⟨_, _, tries, -, -, -, -, hcount⟩, -⟩ := hstory
    have hle : left ≤ retries := hcount ▸ Nat.le_add_left left tries.length
    exact hle.trans (Nat.le_add_left _ _)
  | readNeighbour =>
    simp only [triesLeft]
    split
    · exact Nat.zero_le _
    · exact le_rfl
  | «over» => exact Nat.zero_le _

theorem afterAttempt_triesLeft_lt (retries : Nat) {held : List α} (hheld : held ≠ []) (n pushed : Nat)
    (neighbourDone : Bool) :
    triesLeft retries neighbourDone ⟨held.drop n, pushed, afterAttempt n (held.drop n)⟩ <
      held.length + retries := by
  have hpos := List.length_pos_iff.2 hheld
  unfold afterAttempt
  split
  · exact Nat.add_pos_left hpos _
  · split
    · show retries < _
      omega
    · -- Something went in, so less is held.
      rename_i hn
      show (held.drop n).length + retries < _
      rw [List.length_drop]
      omega

theorem afterDrain_triesLeft_le (retries left pushed : Nat) (held : List α) (neighbourDone : Bool) :
    triesLeft retries neighbourDone ⟨held, pushed, afterDrain left held⟩ ≤ left := by
  unfold afterDrain
  split
  · exact Nat.zero_le _
  · split
    · exact Nat.zero_le _
    · exact le_rfl

/-- A stage that is to stop makes its attempts out of those that are left. -/
theorem triesLeft_step {before : StageState} {log : List Deed} (hs : h.Sound o.signal o.neighbourDone)
    (hstory : Story retries before o.state log h) (htold : o.signal = true ∨ o.neighbourDone = true) :
    (h.deed o).toList.countP Deed.isTry + (h.step retries o).2.triesLeft retries o.neighbourDone ≤
      h.triesLeft retries o.neighbourDone := by
  obtain ⟨held, pushed, point⟩ := h
  cases point with
  | attempt =>
    have hlt := afterAttempt_triesLeft_lt retries hs (o.ring.pushAll held).1
      (pushed + (o.ring.pushAll held).1) o.neighbourDone
    exact (Nat.add_comm 1 _).trans_le hlt
  | readSignal =>
    simp only [Handoff.step]
    split
    · exact (Nat.zero_add _).le
    · -- The signal is not raised, so it is the neighbour that has stopped, as the next look finds.
      rename_i hsignal
      have hdone := htold.resolve_left hsignal
      show 0 + (if o.neighbourDone then 0 else held.length + retries) ≤ retries
      rw [if_pos hdone]
      exact Nat.zero_le _
  | showDraining => exact (Nat.zero_add _).trans_le (afterDrain_triesLeft_le _ _ _ _ _)
  | drain left =>
    obtain ⟨hleft, -⟩ := hstory
    have hle := afterDrain_triesLeft_le retries (left - 1) (pushed + (o.ring.pushAll held).1)
      (held.drop (o.ring.pushAll held).1) o.neighbourDone
    exact (Nat.add_le_add_left hle 1).trans (Nat.add_sub_cancel' hleft).le
  | readNeighbour =>
    cases hdone : o.neighbourDone <;> simp [Handoff.step, triesLeft, deed, hdone, Deed.isTry]
  | «over» => exact Nat.zero_le _

/-- Steps to the next attempt, or to the end. -/
def looksLeft (h : Handoff α) : Nat :=
  match h.point with
  | .readSignal => 2
  | .showDraining | .readNeighbour => 1
  | .attempt | .drain _ | .over _ => 0

/-- A step that does not end the handing on is an attempt, or one of two steps on the way to one. -/
theorem looksLeft_step (hgo : ∀ interrupted, (h.step retries o).2.point ≠ .over interrupted) :
    1 + (h.step retries o).2.looksLeft ≤ 3 * (h.deed o).toList.countP Deed.isTry + h.looksLeft := by
  have hle : ∀ h' : Handoff α, 1 + h'.looksLeft ≤ 3 := by
    intro h'
    unfold looksLeft
    split <;> omega
  obtain ⟨held, pushed, point⟩ := h
  cases point with
  | attempt | drain left => exact hle _
  | readSignal =>
    simp only [Handoff.step]
    split <;> exact le_rfl
  | showDraining =>
    simp only [Handoff.step, afterDrain] at hgo ⊢
    split at hgo
    · exact absurd rfl (hgo none)
    · split at hgo
      · exact absurd rfl (hgo (some .shutdown))
      · rename_i hne hzero
        rw [if_neg hne, if_neg hzero]
        exact le_rfl
  | readNeighbour =>
    simp only [Handoff.step] at hgo ⊢
    split at hgo
    · exact absurd rfl (hgo (some .downstreamStopped))
    · rename_i hdone
      rw [if_neg hdone]
      exact le_rfl
  | «over» interrupted => exact absurd rfl (hgo interrupted)

end Handoff

/-! ## Whole sessions -/

namespace HandoffSession

variable {retries : Nat} {outlet : Outlet α} {items : List α} {log : List Deed} {s : HandoffSession α}
  {last : Option Nat} {moves : List Move}

/-- How often it is tried to push while moves are made one after the other. -/
def tries (retries : Nat) (s : HandoffSession α) (moves : List Move) : Nat :=
  (s.deeds retries moves).countP Deed.isTry

theorem tries_cons (retries : Nat) (s : HandoffSession α) (move : Move) (moves : List Move) :
    s.tries retries (move :: moves) =
      (s.deed move).countP Deed.isTry + (s.apply retries move).tries retries moves :=
  List.countP_append

/-- The stage is to stop: the signal is raised, or the neighbour behind the ring has stopped. -/
def Told (s : HandoffSession α) : Prop :=
  s.outlet.signal = true ∨ s.outlet.neighbourDone = true

theorem Told.apply (h : s.Told) (retries : Nat) (move : Move) : (s.apply retries move).Told := by
  cases move with
  | step =>
    obtain ⟨hsignal, hdone⟩ := Handoff.step_flags retries s.outlet s.handoff
    exact h.imp hsignal.trans hdone.trans
  | take => exact h
  | raiseSignal => exact .inl rfl
  | stopNeighbour => exact .inr rfl

/-- No move makes attempts but out of those that are left. -/
theorem Kept.triesLeft_apply (hk : s.Kept retries outlet items log) (htold : s.Told) (move : Move) :
    (s.deed move).countP Deed.isTry +
        (s.apply retries move).handoff.triesLeft retries (s.apply retries move).outlet.neighbourDone ≤
      s.handoff.triesLeft retries s.outlet.neighbourDone := by
  cases move with
  | step =>
    obtain ⟨-, hdone⟩ := Handoff.step_flags retries s.outlet s.handoff
    show _ + (s.handoff.step retries s.outlet).2.triesLeft retries
      (s.handoff.step retries s.outlet).1.neighbourDone ≤ _
    rw [hdone]
    exact Handoff.triesLeft_step hk.sound hk.story htold
  | take | raiseSignal => exact (Nat.zero_add _).le
  | stopNeighbour => exact (Nat.zero_add _).trans_le (Handoff.triesLeft_done_le _ _ _)

theorem Kept.tries_le (hk : s.Kept retries outlet items log) (htold : s.Told) (moves : List Move) :
    s.tries retries moves ≤ s.handoff.triesLeft retries s.outlet.neighbourDone := by
  induction moves generalizing s log with
  | nil => exact Nat.zero_le _
  | cons move moves ih =>
    rw [tries_cons]
    exact (Nat.add_le_add_left (ih (hk.apply move) (htold.apply retries move)) _).trans (hk.triesLeft_apply htold move)

/-- What is over stays over. -/
theorem over_applyAll {interrupted : Option ExitReason} (h : s.handoff.point = .over interrupted) (moves : List Move) :
    (s.applyAll retries moves).handoff.point = .over interrupted := by
  induction moves generalizing s with
  | nil => exact h
  | cons move moves ih =>
    refine ih ?_
    cases move with
    | step =>
      show (s.handoff.step retries s.outlet).2.point = _
      unfold Handoff.step
      rw [h]
      exact h
    | take | raiseSignal | stopNeighbour => exact h

/-- Every third step at least is an attempt, until the handing on is over. -/
theorem count_step_le (hgo : ∀ interrupted, (s.applyAll retries moves).handoff.point ≠ .over interrupted) :
    moves.count .step ≤ 3 * s.tries retries moves + s.handoff.looksLeft := by
  induction moves generalizing s with
  | nil => exact Nat.zero_le _
  | cons move moves ih =>
    have hrest := ih hgo
    rw [tries_cons]
    by_cases hmove : move = .step
    · subst hmove
      have hnext : ∀ interrupted, (s.handoff.step retries s.outlet).2.point ≠ .over interrupted :=
        fun interrupted hover => hgo interrupted (over_applyAll (s := s.apply retries .step) hover moves)
      have hstep : 1 + (s.apply retries .step).handoff.looksLeft ≤
          3 * (s.deed .step).countP Deed.isTry + s.handoff.looksLeft := Handoff.looksLeft_step hnext
      rw [List.count_cons_self]
      omega
    · have hsame : (s.apply retries move).handoff = s.handoff := by
        cases move with
        | step => exact absurd rfl hmove
        | take | raiseSignal | stopNeighbour => rfl
      rw [hsame] at hrest
      rw [List.count_cons_of_ne hmove]
      omega

/-! ## A consumer that makes room -/

/-- Whether something is taken from the ring between any two attempts that follow each other. `last` tells how much
had been taken when the last attempt before these moves was made, if there was one. -/
def relieved (retries : Nat) (last : Option Nat) (s : HandoffSession α) : List Move → Bool
  | [] => true
  | move :: moves =>
    let next := s.apply retries move
    if (s.deed move).any Deed.isTry then
      last.all (· < s.taken.size) && next.relieved retries (some s.taken.size) moves
    else next.relieved retries last moves

/-- Where something was taken since an attempt, there is room. -/
def Relief (last : Option Nat) (s : HandoffSession α) : Prop :=
  ∀ n ∈ last, n < s.taken.size → 0 < s.outlet.ring.room

/-- An attempt pushes something if there is room. -/
theorem Kept.try_held (hk : s.Kept retries outlet items log) {move : Move}
    (htry : (s.deed move).any Deed.isTry = true) :
    (s.deed move).countP Deed.isTry = 1 ∧ (s.apply retries move).taken = s.taken ∧ s.handoff.held ≠ [] ∧
      (s.apply retries move).handoff.held = s.handoff.held.drop s.outlet.ring.room := by
  cases move with
  | step =>
    obtain ⟨hdeed, -, hdrop, -⟩ := Handoff.step_of_try retries htry
    refine ⟨?_, rfl, ?_, hdrop.trans ?_⟩
    · show (s.handoff.deed s.outlet).toList.countP Deed.isTry = 1
      rw [hdeed]
      rfl
    · intro hnil
      rw [Handoff.deed, hk.sound.over_none_iff.2 hnil] at hdeed
      cases hdeed
    · rw [Handoff.attempt_eq hk.atRest]
  | take | raiseSignal | stopNeighbour => cases htry

/-- What is no attempt leaves what is held, and makes room by taking. -/
theorem Kept.no_try (hk : s.Kept retries outlet items log) (hrelief : s.Relief last) {move : Move}
    (htry : (s.deed move).any Deed.isTry = false) :
    (s.deed move).countP Deed.isTry = 0 ∧ (s.apply retries move).handoff.held = s.handoff.held ∧
      (s.apply retries move).Relief last := by
  have hnone : (s.deed move).countP Deed.isTry = 0 :=
    List.countP_eq_zero.2 fun deed hmem hdeed => by simp [List.any_eq_true.2 ⟨deed, hmem, hdeed⟩] at htry
  cases move with
  | step =>
    obtain ⟨hring, hheld, -⟩ := Handoff.step_of_no_try retries htry
    refine ⟨hnone, hheld, fun n hn hlt => ?_⟩
    show 0 < (s.handoff.step retries s.outlet).1.ring.room
    rw [hring]
    exact hrelief n hn hlt
  | take count =>
    obtain ⟨htaken, -, hleft, hcap⟩ := hk.atRest.popUpTo count
    refine ⟨hnone, rfl, fun n hn hlt => ?_⟩
    have hfits := hk.atRest.length_toList_le
    have hroom := hrelief n hn
    have hsize : (s.taken.appendList (s.outlet.ring.popUpTo count).1).size =
        s.taken.size + min count s.outlet.ring.toList.length := by
      rw [htaken, ← List.length_take, ← Array.length_toList, ← Array.length_toList, ← List.length_append]
      exact congrArg List.length Array.toList_appendList
    change n < (s.taken.appendList (s.outlet.ring.popUpTo count).1).size at hlt
    show 0 < (s.outlet.ring.popUpTo count).2.room
    rw [hsize] at hlt
    unfold Ring.room at hroom ⊢
    rw [hleft, hcap, List.length_drop]
    omega
  | raiseSignal | stopNeighbour => exact ⟨hnone, rfl, hrelief⟩

/-- Every attempt but the first one pushes an item. -/
theorem Kept.tries_add_held_le (hk : s.Kept retries outlet items log) (hrelief : s.Relief last)
    (hrelieved : s.relieved retries last moves = true) :
    s.tries retries moves + (s.applyAll retries moves).handoff.held.length ≤
      s.handoff.held.length + if last.isNone then 1 else 0 := by
  induction moves generalizing s log last with
  | nil =>
    show 0 + s.handoff.held.length ≤ _
    omega
  | cons move moves ih =>
    rw [tries_cons]
    simp only [relieved] at hrelieved
    cases htry : (s.deed move).any Deed.isTry with
    | true =>
      obtain ⟨hone, htaken, hheld, hdrop⟩ := hk.try_held htry
      rw [htry, if_pos rfl, Bool.and_eq_true] at hrelieved
      have hnext : (s.apply retries move).Relief (some s.taken.size) := by
        rintro n ⟨⟩ hlt
        rw [htaken] at hlt
        exact absurd hlt (lt_irrefl _)
      have hrest : (s.apply retries move).tries retries moves +
          ((s.apply retries move).applyAll retries moves).handoff.held.length ≤
            (s.apply retries move).handoff.held.length + 0 := ih (hk.apply move) hnext hrelieved.2
      rw [hdrop, List.length_drop] at hrest
      have hpos := List.length_pos_iff.2 hheld
      show _ + ((s.apply retries move).applyAll retries moves).handoff.held.length ≤ _
      cases last with
      | none =>
        simp only [Option.isNone_none, if_true]
        omega
      | some n =>
        have hroom := hrelief n rfl (by simpa using hrelieved.1)
        omega
    | false =>
      obtain ⟨hnone, hsame, hnext⟩ := hk.no_try hrelief htry
      rw [htry] at hrelieved
      have hrest := ih (hk.apply move) hnext hrelieved
      rw [hsame] at hrest
      rw [hnone, Nat.zero_add]
      exact hrest

/-- The handing on comes to its end, whatever the ring, the burst and the number of last attempts are. From any
moment at which the signal is raised or the neighbour has stopped, whatever moves are made then, there are no
more attempts than the burst has items, one, and the stage's last attempts; and it is over once the stage has
made the steps that these take, three each at most. Where neither has happened, and something is taken between
any two attempts that follow each other, there is at most one attempt more than the burst has items; and once
the stage has made the steps that these take, it is over without an interruption, with the whole burst in. -/
theorem tries_within_bounds (outlet : Outlet α) (hring : outlet.ring.AtRest) (items : List α) (retries : Nat)
    (moves : List Move) :
    let begun := begin outlet items
    let s := begun.applyAll retries moves
    (s.outlet.signal = true ∨ s.outlet.neighbourDone = true →
      ∀ later : List Move,
        s.tries retries later ≤ items.length + 1 + retries ∧
        (3 * (items.length + 1 + retries) + 2 < later.count .step →
          ∃ interrupted, (s.applyAll retries later).handoff.point = .over interrupted)) ∧
    (s.outlet.signal = false → s.outlet.neighbourDone = false → begun.relieved retries none moves = true →
      begun.tries retries moves ≤ items.length + 1 ∧
      (3 * (items.length + 1) < moves.count .step →
        s.handoff.point = .over none ∧ s.handoff.pushed = items.length)) := by
  intro begun s
  have hk : s.Kept retries outlet items (begun.deeds retries moves) := kept_applyAll hring retries items moves
  have hcount := hk.count
  constructor
  · intro htold later
    have htries : s.tries retries later ≤ items.length + 1 + retries := by
      have hle := (hk.tries_le htold later).trans (hk.story.triesLeft_le _)
      omega
    refine ⟨htries, fun hsteps => ?_⟩
    by_contra hgo
    have hle := count_step_le fun interrupted hover => hgo ⟨interrupted, hover⟩
    have hlooks : s.handoff.looksLeft ≤ 2 := by
      unfold Handoff.looksLeft
      split <;> omega
    omega
  · intro hsignal hdone hrelieved
    have hbegun : begun.Kept retries outlet items [] := begin_kept hring retries items
    have hheld : begun.handoff.held.length = items.length := rfl
    have hle : begun.tries retries moves + s.handoff.held.length ≤ begun.handoff.held.length + 1 :=
      hbegun.tries_add_held_le (fun n hn => absurd hn (Option.not_mem_none n)) hrelieved
    refine ⟨by omega, fun hsteps => ?_⟩
    -- The session begins with an attempt, or is over.
    have hlooks : begun.handoff.looksLeft = 0 := by
      show (Handoff.start items).looksLeft = 0
      cases items <;> rfl
    have hover : ∃ interrupted, s.handoff.point = .over interrupted := by
      by_contra hgo
      have hsteps' := count_step_le fun interrupted hover => hgo ⟨interrupted, hover⟩
      omega
    obtain ⟨interrupted, hover⟩ := hover
    have hsound := hk.sound
    unfold Handoff.Sound at hsound
    rw [hover, hsignal, hdone] at hsound
    cases interrupted with
    | none =>
      have hnil : s.handoff.held = [] := hsound
      rw [hnil] at hcount
      exact ⟨hover, hcount⟩
    | some reason =>
      cases reason with
      | shutdown | downstreamStopped => exact absurd hsound.2 Bool.false_ne_true
      | inputExhausted | expectedReached => exact hsound.elim

/-- A full ring of two slots and a burst of three. Where an item is taken before every attempt but the first, the first
attempt finds no room and the next three take the burst in. Where the signal is raised instead, one more item
goes in before it is seen, and then the two last attempts are in vain. -/
theorem full_ring_tried_to_the_end :
    let outlet : Outlet Nat :=
      { ring := ((Ring.startingAt ⟨1, by decide⟩ (0 - 3)).pushAll [8, 9]).2
        signal := false, neighbourDone := false, state := .running }
    let begun := begin outlet [1, 2, 3]
    let relief := [.step, .step, .step, .take 1, .step, .take 1, .step, .take 1] ++ List.replicate 8 .step
    let told := begun.applyAll 2 [.step, .step, .raiseSignal]
    let later := [.step, .take 1] ++ List.replicate 21 .step
    (begun.relieved 2 none relief = true ∧ begun.tries 2 relief = 4 ∧
      (begun.applyAll 2 relief).handoff.point = .over none ∧ (begun.applyAll 2 relief).handoff.pushed = 3) ∧
    told.outlet.signal = true ∧ told.tries 2 later = 4 ∧ told.tries 2 later ≤ 3 + 1 + 2 ∧
      ∃ interrupted, (told.applyAll 2 later).handoff.point = .over interrupted := by
  intro outlet begun relief told later
  have hring : outlet.ring.AtRest := ((Ring.startingAt_atRest _ _).pushAll [8, 9]).2.1
  have hrelieved : begun.relieved 2 none relief = true := by decide +kernel
  have hsignal : told.outlet.signal = true := by decide +kernel
  obtain ⟨-, hquiet⟩ := tries_within_bounds outlet hring [1, 2, 3] 2 relief
  obtain ⟨hstopped, -⟩ := tries_within_bounds outlet hring [1, 2, 3] 2 [.step, .step, .raiseSignal]
  have hbegun : begin outlet [1, 2, 3] = begun := rfl
  have htold : begun.applyAll 2 [.step, .step, .raiseSignal] = told := rfl
  rw [hbegun] at hquiet
  rw [hbegun, htold] at hstopped
  obtain ⟨-, hwhole⟩ := hquiet (by decide +kernel) (by decide +kernel) hrelieved
  obtain ⟨hpoint, hpushed⟩ := hwhole (by decide)
  obtain ⟨hbound, hover⟩ := hstopped (.inl hsignal) later
  exact ⟨⟨hrelieved, by decide +kernel, hpoint, hpushed⟩, hsignal, by decide +kernel, hbound, hover (by decide)⟩

end HandoffSession

end TimestampRelay
