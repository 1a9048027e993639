/-
A held burst on its way into a ring: no step loses, repeats or reorders an item, and a burst that is
given up was given up for a reason that its stage has seen.
-/
import TimestampRelay.Proofs.Ring.Fifo
import TimestampRelay.Run.Handoff

namespace TimestampRelay.Handoff

variable {α : Type} {o : Outlet α} {h : Handoff α}

/-- A burst as it can stand: it is over as soon as nothing is held; it drains only under a raised signal;
it is given up only to a raised signal or a neighbour that has stopped. -/
def Sound (signal neighbourDone : Bool) (h : Handoff α) : Prop :=
  match h.point with
  | .attempt | .readSignal | .readNeighbour => h.held ≠ []
  | .showDraining | .drain _ | .over (some .shutdown) => h.held ≠ [] ∧ signal = true
  | .over (some .downstreamStopped) => h.held ≠ [] ∧ neighbourDone = true
  | .over none => h.held = []
  | .over (some _) => False

theorem start_sound (signal neighbourDone : Bool) (items : List α) :
    (start items).Sound signal neighbourDone := by
  cases items with
  | nil => exact rfl
  | cons x xs => exact List.cons_ne_nil x xs

/-- Signal and flag are only ever raised, which does a burst no harm. -/
theorem Sound.mono {signal signal' done done' : Bool} (hs : h.Sound signal done)
    (hsignal : signal = true → signal' = true) (hdone : done = true → done' = true) :
    h.Sound signal' done' := by
  unfold Sound at hs ⊢
  split at hs
  all_goals first
    | exact hs
    | exact ⟨hs.1, hsignal hs.2⟩
    | exact ⟨hs.1, hdone hs.2⟩

/-- What was handed on is the front of all there was, if what is held is as long as the rest. -/
theorem front_handed_on {gone held initial items : List α} {count : Nat} (h : gone ++ held = initial ++ items)
    (hcount : count + held.length = items.length) :
    gone = initial ++ items.take count ∧ held = items.drop count := by
  rw [← List.take_append_drop count items, ← List.append_assoc] at h
  refine List.append_inj' h ?_
  rw [List.length_drop]
  omega

/-- What an attempt does: items go over to the ring from the front of those held. -/
theorem attempt_spec {ring : Ring α} (hr : ring.AtRest) (h : Handoff α) :
    (h.attempt ring).2.1.AtRest ∧ (h.attempt ring).2.1.capacity = ring.capacity ∧
      (h.attempt ring).2.1.toList ++ (h.attempt ring).2.2.held = ring.toList ++ h.held ∧
      (h.attempt ring).2.2.pushed + (h.attempt ring).2.2.held.length = h.pushed + h.held.length := by
  obtain ⟨hn, hrest, hlist, hcap⟩ := hr.pushAll h.held
  refine ⟨hrest, hcap, ?_, ?_⟩
  · show (ring.pushAll h.held).2.toList ++ h.held.drop (ring.pushAll h.held).1 = _
    rw [hlist, hn, List.append_assoc, Nat.min_comm, ← List.drop_eq_drop_min, List.take_append_drop]
  · show h.pushed + (ring.pushAll h.held).1 + (h.held.drop (ring.pushAll h.held).1).length = _
    rw [List.length_drop, hn]
    omega

theorem afterAttempt_sound (signal done : Bool) (n pushed : Nat) (held : List α) :
    Sound signal done ⟨held, pushed, afterAttempt n held⟩ := by
  unfold afterAttempt
  split
  · rename_i hnil
    exact List.isEmpty_iff.1 hnil
  · rename_i hne
    have hheld : held ≠ [] := by simpa using hne
    split <;> exact hheld

theorem afterDrain_sound {signal : Bool} (done : Bool) (left pushed : Nat) (held : List α)
    (hsignal : signal = true) : Sound signal done ⟨held, pushed, afterDrain left held⟩ := by
  unfold afterDrain
  split
  · rename_i hnil
    exact List.isEmpty_iff.1 hnil
  · rename_i hne
    have hheld : held ≠ [] := by simpa using hne
    split <;> exact ⟨hheld, hsignal⟩

/-- What a step does: the ring and the burst together keep their items in order, the count of those pushed
is exact, and the burst stands as it can. -/
structure Stepped (o : Outlet α) (h : Handoff α) (result : Outlet α × Handoff α) : Prop where
  atRest : result.1.ring.AtRest
  capacity : result.1.ring.capacity = o.ring.capacity
  items : result.1.ring.toList ++ result.2.held = o.ring.toList ++ h.held
  count : result.2.pushed + result.2.held.length = h.pushed + h.held.length
  sound : result.2.Sound o.signal o.neighbourDone

theorem Sound.step (hs : h.Sound o.signal o.neighbourDone) (hr : o.ring.AtRest) (drainRetries : Nat) :
    Stepped o h (h.step drainRetries o) := by
  obtain ⟨held, pushed, point⟩ := h
  cases point with
  | attempt =>
    obtain ⟨hrest, hcap, hitems, hcount⟩ := attempt_spec hr ⟨held, pushed, .attempt⟩
    exact ⟨hrest, hcap, hitems, hcount, afterAttempt_sound _ _ _ _ _⟩
  | readSignal =>
    refine ⟨hr, rfl, rfl, rfl, ?_⟩
    simp only [Handoff.step]
    split
    · rename_i hsignal
      exact ⟨hs, hsignal⟩
    · exact hs
  | showDraining => exact ⟨hr, rfl, rfl, rfl, afterDrain_sound _ _ _ _ hs.2⟩
  | drain left =>
    obtain ⟨hrest, hcap, hitems, hcount⟩ := attempt_spec hr ⟨held, pushed, .drain left⟩
    exact ⟨hrest, hcap, hitems, hcount, afterDrain_sound _ _ _ _ hs.2⟩
  | readNeighbour =>
    refine ⟨hr, rfl, rfl, rfl, ?_⟩
    simp only [Handoff.step]
    split
    · rename_i hdone
      exact ⟨hs, hdone⟩
    · exact hs
  | «over» interrupted => exact ⟨hr, rfl, rfl, rfl, hs⟩

end TimestampRelay.Handoff
