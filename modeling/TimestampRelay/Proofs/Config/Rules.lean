/-
Which settings make a pipeline. There are four rules, on the capacities, the burst and the width, and settings that
break some are refused with the fault of the first they break. Rings and fields that are made on their own go by the
same rules, so a pipeline that was made never finds its settings at fault later, in any of its runs.
-/
import TimestampRelay.Proofs.Run.Containment

namespace TimestampRelay

/-! ## Rules in order -/

/-- The fault is that of the first rule that does not hold. -/
inductive FirstBroken : List (Prop × Fault) → Fault → Prop where
  | here {rule : Prop} {fault : Fault} {rules : List (Prop × Fault)} (h : ¬ rule) :
      FirstBroken ((rule, fault) :: rules) fault
  | later {rule : Prop} {other fault : Fault} {rules : List (Prop × Fault)} (h : rule)
      (hlater : FirstBroken rules fault) : FirstBroken ((rule, other) :: rules) fault

/-- A check of rules one after the other: it succeeds if all of them hold, and fails with the fault of the first that
does not. -/
structure Checks {β : Type} (check : Except Fault β) (rules : List (Prop × Fault)) : Prop where
  ok_iff : (∃ b, check = .ok b) ↔ ∀ rule ∈ rules, rule.1
  error_iff : ∀ fault, check = .error fault ↔ FirstBroken rules fault

namespace Checks

variable {β γ : Type} {check : Except Fault β} {rules : List (Prop × Fault)} {rule : Prop} {fault : Fault}

theorem ok (b : β) : Checks (.ok b) [] where
  ok_iff := ⟨fun _ _ h => absurd h List.not_mem_nil, fun _ => ⟨b, rfl⟩⟩
  error_iff _ := ⟨nofun, nofun⟩

/-- One more rule in front, whose break is seen before anything else. -/
theorem cons (hbroken : ¬ rule → check = .error fault) (hkept : rule → Checks check rules) :
    Checks check ((rule, fault) :: rules) := by
  by_cases hrule : rule
  · have hrest := hkept hrule
    constructor
    · rw [hrest.ok_iff, List.forall_mem_cons]
      exact ⟨fun h => ⟨hrule, h⟩, And.right⟩
    · intro other
      rw [hrest.error_iff]
      constructor
      · exact .later hrule
      · intro h
        cases h with
        | here hnot => exact absurd hrule hnot
        | later _ hlater => exact hlater
  · have herror := hbroken hrule
    constructor
    · rw [herror]
      exact ⟨nofun, fun h => absurd (h _ List.mem_cons_self) hrule⟩
    · intro other
      rw [herror, Except.error.injEq]
      constructor
      · rintro rfl
        exact .here hrule
      · intro h
        cases h with
        | here _ => rfl
        | later h _ => exact absurd h hrule

/-- What is done behind a check of one rule comes behind that rule. -/
theorem bind {next : β → Except Fault γ} (h : Checks check [(rule, fault)])
    (hnext : ∀ b, check = .ok b → Checks (next b) rules) : Checks (check >>= next) ((rule, fault) :: rules) := by
  refine .cons (fun hbroken => ?_) fun hkept => ?_
  · rw [(h.error_iff fault).2 (.here hbroken)]
    rfl
  · obtain ⟨b, hb⟩ := h.ok_iff.2 fun _ hmem => List.mem_singleton.1 hmem ▸ hkept
    have hrest := hnext b hb
    rw [hb]
    exact hrest

theorem guard {holds : Prop} [Decidable holds] {next : holds → Except Fault β} (hrule : rule ↔ holds)
    (hnext : ∀ h, Checks (next h) rules) :
    Checks (if h : holds then next h else .error fault) ((rule, fault) :: rules) := by
  refine .cons (fun hbroken => dif_neg fun h => hbroken (hrule.2 h)) fun hkept => ?_
  rw [dif_pos (hrule.1 hkept)]
  exact hnext _

theorem map (h : Checks check rules) (f : β → γ) : Checks (check.map f) rules := by
  have hok : (∃ c, check.map f = .ok c) ↔ ∃ b, check = .ok b := by
    cases check <;> simp [Except.map]
  have herror (fault : Fault) : check.map f = .error fault ↔ check = .error fault := by
    cases check <;> simp [Except.map]
  exact ⟨hok.trans h.ok_iff, fun fault => (herror fault).trans (h.error_iff fault)⟩

end Checks

/-! ## Capacities and fields -/

namespace Capacity

theorem isPowerOfTwo_iff (word : UInt64) : isPowerOfTwo word = true ↔ ∃ k, word.toNat = 2 ^ k := by
  by_cases hzero : word = 0
  · subst hzero
    constructor
    · exact nofun
    · rintro ⟨k, hk⟩
      exact absurd hk.symm (Nat.two_pow_pos k).ne'
  · have hne : word.toNat ≠ 0 := fun h => hzero (UInt64.toNat_inj.1 h)
    have hle : (1 : UInt64) ≤ word := UInt64.le_iff_toNat_le.2 (Nat.one_le_iff_ne_zero.2 hne)
    have hand : word &&& (word - 1) = 0 ↔ word.toNat &&& (word.toNat - 1) = 0 := by
      rw [← UInt64.toNat_inj, UInt64.toNat_and, UInt64.toNat_sub_of_le _ _ hle]
      rfl
    rw [isPowerOfTwo, Bool.and_eq_true, bne_iff_ne, beq_iff_eq, hand,
      Nat.and_sub_one_eq_zero_iff_isPowerOfTwo hne]
    exact and_iff_right hzero

theorem ofWord?_checks (word : UInt64) :
    Checks (ofWord? word) [(∃ k, word.toNat = 2 ^ k, .invalidCapacity word)] :=
  .guard (isPowerOfTwo_iff word).symm fun _ => .ok _

/-- A capacity has as many slots as it was asked for. -/
theorem slots_of_ofWord? {word : UInt64} {c : Capacity} (h : ofWord? word = .ok c) : c.slots = word.toNat := by
  obtain ⟨k, hk⟩ := (ofWord?_checks word).ok_iff.1 ⟨c, h⟩ _ List.mem_cons_self
  obtain rfl : (⟨word.toNat.log2, log2_toNat_lt word⟩ : Capacity) = c := by
    unfold ofWord? at h
    split at h
    · exact Except.ok.inj h
    · cases h
  show 2 ^ word.toNat.log2 = word.toNat
  rw [hk, Nat.log2_two_pow]

/-- The number of slots of a capacity gives it back. -/
theorem ofWord?_word (c : Capacity) : ofWord? c.word = .ok c := by
  have hpow : ∃ k, c.word.toNat = 2 ^ k := ⟨c.exponent, c.toNat_word⟩
  obtain ⟨d, hd⟩ := (ofWord?_checks c.word).ok_iff.2 fun _ hmem => List.mem_singleton.1 hmem ▸ hpow
  have hslots : 2 ^ d.exponent = 2 ^ c.exponent := (slots_of_ofWord? hd).trans c.toNat_word
  obtain ⟨exponent, hlt⟩ := c
  obtain ⟨exponent', hlt'⟩ := d
  obtain rfl := Nat.pow_right_injective le_rfl hslots
  exact hd

end Capacity

theorem Ring.ofSlots?_checks {α : Type} [Inhabited α] (slots : UInt64) :
    Checks (ofSlots? slots : Except Fault (Ring α)) [(∃ k, slots.toNat = 2 ^ k, .invalidCapacity slots)] :=
  (Capacity.ofWord?_checks slots).map empty

theorem Ring.ofSlots?_word {α : Type} [Inhabited α] (c : Capacity) :
    (ofSlots? c.word : Except Fault (Ring α)) = .ok (.empty c) := by
  rw [ofSlots?, c.ofWord?_word]
  rfl

theorem CounterField.ofWidth?_checks (bits : UInt32) :
    Checks (ofWidth? bits) [(1 ≤ bits ∧ bits ≤ 32, .invalidFieldWidth bits)] := by
  have hword : 1 ≤ bits ∧ bits ≤ 32 ↔ 0 < bits.toNat ∧ bits.toNat ≤ 32 := by
    rw [UInt32.le_iff_toNat_le, UInt32.le_iff_toNat_le]
    exact Iff.rfl
  exact .guard hword fun _ => .ok _

/-! ## Settings -/

namespace Setting

/-! The value that a setting gives, if it is of the kind in question. -/

def inboundCapacity? : Setting → Option UInt64
  | .inboundCapacity slots => some slots
  | _ => none

def outboundCapacity? : Setting → Option UInt64
  | .outboundCapacity slots => some slots
  | _ => none

def burst? : Setting → Option UInt64
  | .burst items => some items
  | _ => none

def fieldWidth? : Setting → Option UInt32
  | .fieldWidth bits => some bits
  | _ => none

/-- The last value of its kind that was given, or else the default. -/
def lastOf {β : Type} (kind : Setting → Option β) (default : β) (given : List Setting) : β :=
  (given.filterMap kind).getLast?.getD default

end Setting

namespace Settings

/-- A part of the settings that one kind of setting gives holds the last value given. -/
theorem part_foldl_set {β : Type} (part : Settings → β) {kind : Setting → Option β}
    (hset : ∀ s setting, part (set s setting) = (kind setting).getD (part s)) (s : Settings) (given : List Setting) :
    part (given.foldl set s) = Setting.lastOf kind (part s) given := by
  induction given using List.reverseRecOn with
  | nil => rfl
  | append_singleton given setting ih =>
    rw [List.foldl_append, List.foldl_cons, List.foldl_nil, hset, ih, Setting.lastOf, Setting.lastOf,
      List.filterMap_append, List.getLast?_append]
    cases hkind : kind setting with
    | none => simp [hkind]
    | some value => simp [hkind]

section Given

variable (given : List Setting)

theorem inboundCapacity_ofList :
    (ofList given).inboundCapacity = Setting.lastOf Setting.inboundCapacity? 65536 given :=
  part_foldl_set inboundCapacity (fun _ setting => by cases setting <;> rfl) {} given

theorem outboundCapacity_ofList :
    (ofList given).outboundCapacity = Setting.lastOf Setting.outboundCapacity? 262144 given :=
  part_foldl_set outboundCapacity (fun _ setting => by cases setting <;> rfl) {} given

theorem burst_ofList : (ofList given).burst = Setting.lastOf Setting.burst? 32 given :=
  part_foldl_set burst (fun _ setting => by cases setting <;> rfl) {} given

theorem fieldWidth_ofList : (ofList given).fieldWidth = Setting.lastOf Setting.fieldWidth? 20 given :=
  part_foldl_set fieldWidth (fun _ setting => by cases setting <;> rfl) {} given

end Given

/-- The rules for settings in the order in which they are checked, each with the fault of settings that break it. -/
def rules (inbound outbound burst : UInt64) (width : UInt32) : List (Prop × Fault) :=
  [(∃ k, inbound.toNat = 2 ^ k, .invalidCapacity inbound),
    (∃ k, outbound.toNat = 2 ^ k, .invalidCapacity outbound),
    (1 ≤ burst ∧ burst ≤ min inbound outbound, .invalidBurst burst (min inbound outbound)),
    (1 ≤ width ∧ width ≤ 32, .invalidFieldWidth width)]

theorem burst_fits_iff {inbound outbound : Capacity} {i o : UInt64} (hi : inbound.slots = i.toNat)
    (ho : outbound.slots = o.toNat) (burst : UInt64) :
    1 ≤ burst ∧ burst ≤ min i o ↔ 0 < burst.toNat ∧ burst.toNat ≤ min inbound.slots outbound.slots := by
  rw [UInt64.le_iff_toNat_le, UInt64.le_iff_toNat_le, UInt64.toNat_min, hi, ho]
  exact Iff.rfl

theorem config_checks (s : Settings) :
    Checks s.config (rules s.inboundCapacity s.outboundCapacity s.burst s.fieldWidth) := by
  refine (Capacity.ofWord?_checks _).bind fun inbound hin => (Capacity.ofWord?_checks _).bind fun outbound hout => ?_
  have hfits := burst_fits_iff (Capacity.slots_of_ofWord? hin) (Capacity.slots_of_ofWord? hout) s.burst
  exact .guard hfits fun _ => (CounterField.ofWidth?_checks _).bind fun _ _ => .ok _

/-- A configuration holds what the settings say. -/
theorem config_eq_ok {s : Settings} {c : Config} (h : s.config = .ok c) :
    Capacity.ofWord? s.inboundCapacity = .ok c.inbound ∧ Capacity.ofWord? s.outboundCapacity = .ok c.outbound ∧
      c.burst = s.burst.toNat ∧ CounterField.ofWidth? s.fieldWidth = .ok c.field := by
  unfold config at h
  cases hin : Capacity.ofWord? s.inboundCapacity with
  | error fault => rw [hin] at h; cases h
  | ok inbound =>
    cases hout : Capacity.ofWord? s.outboundCapacity with
    | error fault => rw [hin, hout] at h; cases h
    | ok outbound =>
      rw [hin, hout] at h
      cases hfield : CounterField.ofWidth? s.fieldWidth with
      | error fault =>
        rw [hfield] at h
        simp only [bind, Except.bind] at h
        split at h <;> cases h
      | ok field =>
        rw [hfield] at h
        simp only [bind, Except.bind] at h
        split at h
        · cases h
          exact ⟨rfl, rfl, rfl, rfl⟩
        · cases h

end Settings

/-! ## Runs -/

/-- Faults that lie in the settings of a pipeline, as opposed to its runs. -/
def Fault.ofSettings : Fault → Bool
  | .invalidCapacity _ | .invalidBurst _ _ | .invalidFieldWidth _ => true
  | .spawn _ _ | .stagePanicked _ | .affinity _ _ _ | .memoryLock _ => false

namespace Pipeline

variable {p q : Pipeline} {s : Settings} {fault : Fault}

/-- A pipeline is its configuration, a signal and stages at rest. -/
theorem ofSettings_eq_map (s : Settings) :
    ofSettings s = s.config.map fun config =>
      { config := config, signal := s.signal, states := ⟨.stopped, .stopped, .stopped⟩ } := by
  unfold ofSettings
  cases s.config <;> rfl

theorem ofSettings_checks (s : Settings) :
    Checks (ofSettings s) (Settings.rules s.inboundCapacity s.outboundCapacity s.burst s.fieldWidth) := by
  rw [ofSettings_eq_map]
  exact s.config_checks.map _

theorem ofSettings_config (h : ofSettings s = .ok p) : s.config = .ok p.config := by
  rw [ofSettings_eq_map] at h
  cases hconfig : s.config with
  | error fault => rw [hconfig] at h; cases h
  | ok config => rw [hconfig] at h; cases h; rfl

/-- Runs do not change the configuration. -/
theorem Becomes.config (h : p.Becomes q) : q.config = p.config := by
  induction h with
  | same => rfl
  | raised _ ih => exact ih
  | ran _ _ _ _ ih => exact ih

/-- A run about to begin whose rings are asked for by their numbers of slots, as any ring is. -/
def launchBySlots (p : Pipeline) (m : Machine) : Except Fault World :=
  match p.lockFault? m with
  | some fault => .error fault
  | none => do
    let inbound ← Ring.ofSlots? p.config.inbound.word
    let outbound ← Ring.ofSlots? p.config.outbound.word
    return .start p.signal p.states (if p.config.prefault then inbound.prefault else inbound)
      (if p.config.prefault then outbound.prefault else outbound)

/-- Rings of the configured capacities are always granted. -/
theorem launchBySlots_eq (p : Pipeline) (m : Machine) : p.launchBySlots m = p.launch m := by
  unfold launchBySlots launch
  cases p.lockFault? m with
  | some fault => rfl
  | none =>
    simp only [Ring.ofSlots?_word]
    rfl

/-- Some run of the pipeline fails with this fault: it does not begin, or its stages have ended and this is its
outcome. -/
def FailsWith (p : Pipeline) (fault : Fault) : Prop :=
  ∃ m : Machine, p.launchBySlots m = .error fault ∨
    ∃ (load : Workload) (begun w : World), p.launchBySlots m = .ok begun ∧
      World.Reachable (p.job m load) begun w ∧ w.outcome? (p.job m load) = some (.error fault)

theorem FailsWith.not_ofSettings (h : p.FailsWith fault) : fault.ofSettings = false := by
  obtain ⟨m, hearly | ⟨load, begun, w, hlaunch, hreach, houtcome⟩⟩ := h
  · rw [launchBySlots_eq, launch] at hearly
    split at hearly
    · -- The machine may refuse to lock the memory.
      rename_i refusal hlock
      obtain rfl := Except.error.inj hearly
      unfold lockFault? at hlock
      split at hlock
      · obtain ⟨cause, -, rfl⟩ := Option.map_eq_some_iff.1 hlock
        rfl
      · cases hlock
    · cases hearly
  · rw [launchBySlots_eq] at hlaunch
    obtain ⟨stage, hbefell, -⟩ := (reachable_fated hlaunch hreach).earliestFault houtcome
    cases hbefell <;> rfl

/-- Settings given in any order, some of them more than once, of which the last of a kind counts. They make a pipeline
if and only if the four rules hold, and else are refused with the fault of the first rule that they break. Rings and
fields that are made on their own are granted and refused by the same rules. So the pipeline has what the settings
say, each run of it is granted its rings, whatever came before, and no run ever fails with a fault of the settings. -/
theorem made_by_rules (given : List Setting) :
    let inbound := Setting.lastOf Setting.inboundCapacity? 65536 given
    let outbound := Setting.lastOf Setting.outboundCapacity? 262144 given
    let burst := Setting.lastOf Setting.burst? 32 given
    let width := Setting.lastOf Setting.fieldWidth? 20 given
    let made := ofSettings (.ofList given)
    ((∃ p, made = .ok p) ↔ (∃ k, inbound.toNat = 2 ^ k) ∧ (∃ k, outbound.toNat = 2 ^ k) ∧
        (1 ≤ burst ∧ burst ≤ min inbound outbound) ∧ 1 ≤ width ∧ width ≤ 32) ∧
      (∀ fault, made = .error fault ↔ FirstBroken (Settings.rules inbound outbound burst width) fault) ∧
      (∀ slots, Checks (Ring.ofSlots? slots : Except Fault (Ring Descriptor))
          [(∃ k, slots.toNat = 2 ^ k, .invalidCapacity slots)] ∧
        Checks (Ring.ofSlots? slots : Except Fault (Ring UInt64))
          [(∃ k, slots.toNat = 2 ^ k, .invalidCapacity slots)]) ∧
      (∀ bits, Checks (CounterField.ofWidth? bits) [(1 ≤ bits ∧ bits ≤ 32, .invalidFieldWidth bits)]) ∧
      ∀ p q, made = .ok p → p.Becomes q →
        q.config.inbound.slots = inbound.toNat ∧ q.config.outbound.slots = outbound.toNat ∧
          q.config.burst = burst.toNat ∧ CounterField.ofWidth? width = .ok q.config.field ∧
          (∀ m, q.launchBySlots m = q.launch m) ∧ ∀ fault, q.FailsWith fault → fault.ofSettings = false := by
  intro inbound outbound burst width made
  have hinbound : (Settings.ofList given).inboundCapacity = inbound := Settings.inboundCapacity_ofList given
  have houtbound : (Settings.ofList given).outboundCapacity = outbound := Settings.outboundCapacity_ofList given
  have hburst : (Settings.ofList given).burst = burst := Settings.burst_ofList given
  have hwidth : (Settings.ofList given).fieldWidth = width := Settings.fieldWidth_ofList given
  have hmade : Checks made (Settings.rules inbound outbound burst width) := by
    have hchecks := ofSettings_checks (Settings.ofList given)
    rw [hinbound, houtbound, hburst, hwidth] at hchecks
    exact hchecks
  refine ⟨?_, hmade.error_iff, fun slots => ⟨Ring.ofSlots?_checks slots, Ring.ofSlots?_checks slots⟩,
    CounterField.ofWidth?_checks, ?_⟩
  · rw [hmade.ok_iff]
    simp only [Settings.rules, List.forall_mem_cons, List.not_mem_nil, false_imp_iff, implies_true, and_true]
  · intro p q hp hq
    obtain ⟨hin, hout, hitems, hfield⟩ := Settings.config_eq_ok (ofSettings_config hp)
    rw [hinbound] at hin
    rw [houtbound] at hout
    rw [hburst] at hitems
    rw [hwidth] at hfield
    rw [hq.config]
    exact ⟨Capacity.slots_of_ofWord? hin, Capacity.slots_of_ofWord? hout, hitems, hfield, q.launchBySlots_eq,
      fun _ => FailsWith.not_ofSettings⟩

/-- The same pipeline, but it does not run unless its memory is locked. -/
def locked (p : Pipeline) : Pipeline :=
  { p with config := { p.config with lockMemory := true, strict := true } }

/-- The last burst given is the one that counts. A run fails when the machine does not lock the memory, and that is no
fault of the settings. -/
theorem unlocked_after_rules :
    let given : List Setting :=
      [.burst 7, .inboundCapacity 2, .lockMemory true, .burst 1, .fieldWidth 8, .strict true, .outboundCapacity 1,
        .seed 240, .drainRetries 0, .prefault false]
    let refusal : MachineFault := ⟨"PermissionDenied", "no locking"⟩
    ofSettings (.ofList given) = .ok (narrow none).locked ∧ (narrow none).locked.FailsWith (.memoryLock refusal) ∧
      (Fault.memoryLock refusal).ofSettings = false := by
  intro given refusal
  have hgiven : Settings.ofList given =
      { inboundCapacity := 2, outboundCapacity := 1, burst := 1, fieldWidth := 8, seed := 240, drainRetries := 0,
        lockMemory := true, prefault := false, strict := true } := rfl
  have hmade : ofSettings (.ofList given) = .ok (narrow none).locked := by
    rw [hgiven]
    rfl
  have hfails : (narrow none).locked.FailsWith (.memoryLock refusal) := ⟨⟨fun _ _ => none, some refusal⟩, .inl rfl⟩
  obtain ⟨-, -, -, -, hruns⟩ := made_by_rules given
  obtain ⟨-, -, -, -, -, hfault⟩ := hruns (narrow none).locked (narrow none).locked hmade .same
  exact ⟨hmade, hfails, hfault _ hfails⟩

end Pipeline

end TimestampRelay
