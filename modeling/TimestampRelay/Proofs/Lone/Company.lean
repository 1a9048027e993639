/-
A stage by itself, among others who stand in for its neighbours. They raise the signal and set completion flags, they
take from the ring that the stage pushes into, and they offer items to the ring that it pops from, until the
stage that they stand in for has stopped. What a stage does then is told by the moves that are made: the items that
came into its ring, and the pops that it made.
-/
import TimestampRelay.Proofs.Run.Books
import TimestampRelay.Proofs.Run.Reaction

namespace TimestampRelay

namespace World

variable {job : Job} {stage : StageKind} {w : World}

/-! ## What others may do -/

/-- What may happen while a stage runs by itself: a step of it, or something done by others. They set other flags than
the stage's own, take only what it pushes, and offer items only to the ring that it pops from, as long as the stage
that feeds this ring has not stopped. What happens inside a call to the feed or a delivery is a move behind that step,
which looks at nothing that others share. -/
def Move.isBeside (stage : StageKind) (w : World) : Move → Bool
  | .step actor => actor == stage
  | .raiseSignal => true
  | .finish other => other != stage
  | .takeInbound _ => stage == .source
  | .takeOutbound _ => stage == .extender
  | .offerInbound _ => stage == .extender && !w.source.done
  | .offerOutbound _ => stage == .sink && !w.extender.done

/-- Whether moves that are made one after the other may all happen while a stage runs by itself. -/
def admits (job : Job) (stage : StageKind) (w : World) : List Move → Bool
  | [] => true
  | move :: moves => move.isBeside stage w && (w.apply job move).admits job stage moves

theorem admits_append (moves more : List Move) :
    w.admits job stage (moves ++ more) =
      (w.admits job stage moves && (w.applyAll job moves).admits job stage more) := by
  induction moves generalizing w with
  | nil => rfl
  | cons move moves ih =>
    simp only [List.cons_append, admits, ih, Bool.and_assoc]
    rfl

/-- What each move that may happen keeps is kept in the course of all. -/
@[elab_as_elim]
theorem admits_induction {motive : List Move → Prop} (hnil : motive [])
    (hmove : ∀ moves move, motive moves → move.isBeside stage (w.applyAll job moves) = true → motive (moves ++ [move]))
    {moves : List Move} (h : w.admits job stage moves = true) : motive moves := by
  induction moves using List.reverseRecOn with
  | nil => exact hnil
  | append_singleton moves move ih =>
    simp only [admits_append, admits, Bool.and_true, Bool.and_eq_true] at h
    exact hmove moves move (ih h.1) h.2

theorem applyAll_concat (job : Job) (w : World) (moves : List Move) (move : Move) :
    w.applyAll job (moves ++ [move]) = (w.applyAll job moves).apply job move :=
  List.foldl_concat ..

/-! ## What the moves tell -/

/-- What moves that are made one after the other tell, each of them where the run stands before it. -/
def collect {β : Type} (job : Job) (tell : World → Move → List β) (w : World) : List Move → List β
  | [] => []
  | move :: moves => tell w move ++ (w.apply job move).collect job tell moves

theorem collect_append {β : Type} (tell : World → Move → List β) (moves more : List Move) :
    w.collect job tell (moves ++ more) =
      w.collect job tell moves ++ (w.applyAll job moves).collect job tell more := by
  induction moves generalizing w with
  | nil => rfl
  | cons move moves ih =>
    simp only [List.cons_append, collect, ih, List.append_assoc]
    rfl

theorem collect_concat {β : Type} (tell : World → Move → List β) (moves : List Move) (move : Move) :
    w.collect job tell (moves ++ [move]) = w.collect job tell moves ++ tell (w.applyAll job moves) move := by
  rw [collect_append, collect, collect, List.append_nil]

/-- Descriptors that an offer brings into the inbound ring. -/
def Move.intoInbound (w : World) : Move → List Descriptor
  | .offerInbound items => items.take (w.inbound.pushAll items).1
  | .step _ | .raiseSignal | .finish _ | .takeInbound _ | .takeOutbound _ | .offerOutbound _ => []

/-- Values that an offer brings into the outbound ring. -/
def Move.intoOutbound (w : World) : Move → List UInt64
  | .offerOutbound items => items.take (w.outbound.pushAll items).1
  | .step _ | .raiseSignal | .finish _ | .takeInbound _ | .takeOutbound _ | .offerInbound _ => []

/-- All that the inbound ring holds at first or is brought into it. -/
def inboundStream (job : Job) (w : World) (moves : List Move) : List Descriptor :=
  w.inbound.toList ++ w.collect job (fun w move => move.intoInbound w) moves

/-- All that the outbound ring holds at first or is brought into it. -/
def outboundStream (job : Job) (w : World) (moves : List Move) : List UInt64 :=
  w.outbound.toList ++ w.collect job (fun w move => move.intoOutbound w) moves

theorem inboundStream_concat (moves : List Move) (move : Move) :
    w.inboundStream job (moves ++ [move]) = w.inboundStream job moves ++ move.intoInbound (w.applyAll job moves) := by
  rw [inboundStream, collect_concat, ← List.append_assoc]
  rfl

theorem outboundStream_concat (moves : List Move) (move : Move) :
    w.outboundStream job (moves ++ [move]) = w.outboundStream job moves ++ move.intoOutbound (w.applyAll job moves) := by
  rw [outboundStream, collect_concat, ← List.append_assoc]
  rfl

/-- What has come into a ring stays in front of what comes later. -/
theorem outboundStream_grows (moves more : List Move) :
    w.outboundStream job moves <+: w.outboundStream job (moves ++ more) := by
  rw [outboundStream, outboundStream, collect_append, ← List.append_assoc]
  exact List.prefix_append _ _

/-- How many items a move of a stage takes from the ring in front of it, if it takes any. -/
def popped (job : Job) (stage : StageKind) (w : World) (move : Move) : List Nat :=
  if move = .step stage ∧ w.popping job stage ≠ 0 then [w.popping job stage] else []

theorem pops_eq_collect (moves : List Move) : w.pops job stage moves = w.collect job (popped job stage) moves := by
  induction moves generalizing w with
  | nil => rfl
  | cons move moves ih =>
    simp only [pops, collect, popped, ih]
    split <;> rfl

theorem pops_concat (moves : List Move) (move : Move) :
    w.pops job stage (moves ++ [move]) = w.pops job stage moves ++ popped job stage (w.applyAll job moves) move := by
  rw [pops_eq_collect, pops_eq_collect, collect_concat]

theorem sum_pops_le (stage : StageKind) (moves more : List Move) :
    (w.pops job stage moves).sum ≤ (w.pops job stage (moves ++ more)).sum := by
  rw [pops_eq_collect, pops_eq_collect, collect_append, List.sum_append]
  exact Nat.le_add_right _ _

theorem popped_of_ne {move : Move} (hne : move ≠ .step stage) : popped job stage w move = [] :=
  if_neg fun h => hne h.1

theorem sum_popped (job : Job) (stage : StageKind) (w : World) :
    (popped job stage w (.step stage)).sum = w.popping job stage := by
  unfold popped
  split
  · exact List.sum_singleton
  · rename_i hzero
    simp only [true_and, ne_eq, not_not] at hzero
    exact hzero.symm

theorem getLastD_popped (job : Job) (stage : StageKind) (w : World) (pops : List Nat) :
    (pops ++ popped job stage w (.step stage)).getLastD 0 =
      if w.popping job stage = 0 then pops.getLastD 0 else w.popping job stage := by
  by_cases hzero : w.popping job stage = 0
  · simp [popped, hzero]
  · simp [popped, hzero]

end World

end TimestampRelay
