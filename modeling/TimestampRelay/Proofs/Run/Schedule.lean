/-
Runs under a schedule. Whichever stage has its turn and whatever the cues wait for, a run is led through moves that can be
told one by one: steps of the stages that take turns, and moves of the cues. Where no cue does anything from outside but
raise the signal, the run is one that the stages can come to by themselves. The number of moves that a run may make matters
only until no cue is due and no stage is free.
-/
import TimestampRelay.Proofs.Run.Stopping
import TimestampRelay.Run.Schedule

namespace TimestampRelay

/-- The cue that is given is one of the cues, and what remains makes the same moves as before. -/
theorem firstDue?_spec {w : World} {cues rest : List Cue} {due : Cue} (h : firstDue? w cues = some (due, rest)) :
    due ∈ cues ∧ due.isDue w = true ∧ rest.map Cue.moves = cues.map Cue.moves := by
  induction cues generalizing rest with
  | nil => cases h
  | cons cue cues ih =>
    unfold firstDue? at h
    split at h
    · rename_i hdue
      cases h
      exact ⟨List.mem_cons_self, hdue, rfl⟩
    · obtain ⟨⟨first, later⟩, hlater, heq⟩ := Option.map_eq_some_iff.1 h
      cases heq
      obtain ⟨hmem, hdue, hmoves⟩ := ih hlater
      exact ⟨List.mem_cons_of_mem _ hmem, hdue, congrArg (cue.moves :: ·) hmoves⟩

namespace Schedule

variable {job : Job} {s : Schedule} {w begun : World} {due : Cue} {rest : List Cue} {stage : StageKind}
  {move : World.Move}

/-! ## Moves -/

/-- A move that a schedule can come to make: a step of a stage that takes turns, or a move of a cue. -/
def Makes (s : Schedule) (move : World.Move) : Prop :=
  (∃ stage ∈ s.turns, move = .step stage) ∨ ∃ moves ∈ s.cues.map Cue.moves, move ∈ moves

/-- Giving a cue brings no new moves. -/
theorem Makes.of_give (hdue : firstDue? w s.cues = some (due, rest)) (h : (s.give job w due rest).1.Makes move) :
    s.Makes move := by
  obtain ⟨-, -, hmoves⟩ := firstDue?_spec hdue
  refine h.imp_right fun hcue => ?_
  rw [← hmoves]
  exact hcue

/-- Nor does a turn. -/
theorem Makes.of_rotate (hstage : stage ∈ s.turns) (h : (s.rotate stage).Makes move) : s.Makes move := by
  refine h.imp_left ?_
  rintro ⟨next, hnext, rfl⟩
  refine ⟨next, ?_, rfl⟩
  rcases List.mem_append.1 hnext with hother | hsame
  · exact (List.mem_filter.1 hother).1
  · rw [List.mem_singleton.1 hsame]
    exact hstage

/-- A run under a schedule goes through moves that the schedule makes. -/
theorem run_eq_applyAll (job : Job) (limit : Nat) (s : Schedule) (w : World) :
    ∃ moves, (run job limit s w).2 = w.applyAll job moves ∧ ∀ move ∈ moves, s.Makes move := by
  induction limit generalizing s w with
  | zero => exact ⟨[], rfl, List.forall_mem_nil _⟩
  | succ limit ih =>
    unfold run
    split
    · rename_i due rest hdue
      obtain ⟨moves, heq, hmakes⟩ := ih (s.give job w due rest).1 (w.applyAll job due.moves)
      refine ⟨due.moves ++ moves, ?_, ?_⟩
      · rw [World.applyAll_append]
        exact heq
      · intro move hmem
        rcases List.mem_append.1 hmem with hgiven | hlater
        · exact .inr ⟨due.moves, List.mem_map_of_mem (firstDue?_spec hdue).1, hgiven⟩
        · exact (hmakes move hlater).of_give hdue
    · split
      · rename_i stage hfree
        have hstage := List.mem_of_find?_eq_some hfree
        obtain ⟨moves, heq, hmakes⟩ := ih (s.rotate stage) (w.step job stage)
        refine ⟨.step stage :: moves, heq, List.forall_mem_cons.2 ⟨.inl ⟨stage, hstage, rfl⟩, fun move hmem => ?_⟩⟩
        exact (hmakes move hmem).of_rotate hstage
      · exact ⟨[], rfl, List.forall_mem_nil _⟩

/-- Where no cue does anything from outside but raise the signal, a run under a schedule is one that the stages can come
to by themselves. -/
theorem run_reachable (hcues : ∀ cue ∈ s.cues, ∀ move ∈ cue.moves, move.Inner) (hw : World.Reachable job begun w)
    (limit : Nat) : World.Reachable job begun (run job limit s w).2 := by
  obtain ⟨moves, heq, hmakes⟩ := run_eq_applyAll job limit s w
  rw [heq]
  refine hw.applyAll fun move hmem => ?_
  rcases hmakes move hmem with ⟨stage, -, rfl⟩ | ⟨moves, hgiven, hmove⟩
  · exact trivial
  · obtain ⟨cue, hcue, rfl⟩ := List.mem_map.1 hgiven
    exact hcues cue hcue move hmove

/-! ## The end -/

/-- No cue is due, and no stage can take its turn: all have ended or are held back. -/
structure Idle (s : Schedule) (w : World) : Prop where
  noneDue : firstDue? w s.cues = none
  noneFree : s.turns.find? (s.isFree w) = none

theorem Idle.run_eq (h : s.Idle w) (job : Job) (limit : Nat) : run job limit s w = (s, w) := by
  cases limit with
  | zero => rfl
  | succ limit => simp only [run, h.noneDue, h.noneFree]

theorem run_add (job : Job) (n m : Nat) (s : Schedule) (w : World) :
    run job (n + m) s w = run job m (run job n s w).1 (run job n s w).2 := by
  induction n generalizing s w with
  | zero => rw [Nat.zero_add, run]
  | succ n ih =>
    rw [Nat.succ_add]
    cases hdue : firstDue? w s.cues with
    | some found =>
      simp only [run, hdue]
      exact ih _ _
    | none =>
      cases hfree : s.turns.find? (s.isFree w) with
      | some stage =>
        simp only [run, hdue, hfree]
        exact ih _ _
      | none =>
        have hidle : s.Idle w := ⟨hdue, hfree⟩
        rw [hidle.run_eq, hidle.run_eq, hidle.run_eq]

/-- A run that has come to where nothing is left to do is the same for any greater number of moves. -/
theorem run_of_idle {n m : Nat} (hle : n ≤ m) (h : (run job n s w).1.Idle (run job n s w).2) :
    run job m s w = run job n s w := by
  obtain ⟨more, rfl⟩ := Nat.exists_eq_add_of_le hle
  rw [run_add, h.run_eq]

end Schedule

end TimestampRelay
