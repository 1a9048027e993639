/-
Which pages of memory a walk over a buffer brings in. The walk begins at the first byte of the buffer and goes on by a
page at a time, so it visits one page after the other of those that the buffer lies in. The last of them it may miss:
every byte that it visits stands as far behind the start of its page as the first one does, and a buffer that ends nearer
to the start of its last page is left before the walk gets there. A buffer that begins with a page is brought in whole.
-/
import TimestampRelay.Machine
import TimestampRelay.Proofs.Word
import Mathlib.Tactic

namespace TimestampRelay.Memory

/-! ## Contents -/

/-- A byte that is read and written back is as it was. -/
@[simp] theorem touch_eq (bytes : Array UInt8) (offset : Nat) : touch bytes offset = bytes := by
  unfold touch
  split <;> simp

theorem prefault_eq (page : Nat) (bytes : Array UInt8) : prefault page bytes = bytes := by
  unfold prefault
  induction touched page bytes.size with
  | nil => rfl
  | cons offset offsets ih => simpa using ih

/-! ## Stops -/

/-- How many bytes a walk visits. -/
def stops (page length : Nat) : Nat :=
  (length + page - 1) / page

section

variable {page length : Nat}

theorem touched_eq (hpage : 0 < page) : touched page length = (List.range (stops page length)).map (· * page) :=
  if_pos hpage

theorem lt_stops_iff (hpage : 0 < page) {n : Nat} : n < stops page length ↔ n * page < length := by
  unfold stops
  rw [← Nat.succ_le_iff, Nat.le_div_iff_mul_le hpage, Nat.succ_mul]
  omega

/-- No stop lies behind the last byte. -/
theorem lt_of_mem_touched (hpage : 0 < page) {offset : Nat} (h : offset ∈ touched page length) : offset < length := by
  rw [touched_eq hpage] at h
  obtain ⟨n, hn, rfl⟩ := List.mem_map.1 h
  exact (lt_stops_iff hpage).1 (List.mem_range.1 hn)

theorem stops_eq (hpage : 0 < page) (hlength : 0 < length) : stops page length = (length - 1) / page + 1 := by
  have hsum : length + page - 1 = length - 1 + page := by omega
  rw [stops, hsum, Nat.add_div_right _ hpage]

end

/-! ## The walk, round by round -/

/-- A walk over a buffer: the bytes, the offset it stands at, and the offsets that it has visited. -/
structure Walk where
  bytes : Array UInt8
  offset : UInt64
  visited : List Nat

namespace Walk

def start (bytes : Array UInt8) : Walk :=
  ⟨bytes, 0, []⟩

/-- A walk has come to its end when it stands behind the last byte. -/
def IsOver (w : Walk) : Prop :=
  w.bytes.size ≤ w.offset.toNat

/-- One round: the byte at the offset is touched, and the walk goes on by a page, the sum checked. A walk that is over
stays where it is. -/
def round? (page : UInt64) (w : Walk) : Option Walk :=
  if w.offset.toNat < w.bytes.size then do
    let offset ← Word.add? w.offset page
    return ⟨touch w.bytes w.offset.toNat, offset, w.visited ++ [w.offset.toNat]⟩
  else some w

def rounds? (page : UInt64) (w : Walk) : Nat → Option Walk
  | 0 => some w
  | n + 1 => do
    let w ← w.rounds? page n
    w.round? page

/-- A walk that has visited `n` bytes. -/
def after (page : UInt64) (bytes : Array UInt8) (n : Nat) : Walk :=
  ⟨bytes, .ofNat (n * page.toNat), (List.range n).map (· * page.toNat)⟩

variable {page : UInt64} {bytes : Array UInt8}

/-- No offset of a walk is too large for a word. -/
theorem offset_lt (hpage : 0 < page.toNat) (hsize : bytes.size < 2 ^ 63) {n : Nat}
    (hn : n ≤ stops page.toNat bytes.size) : n * page.toNat < 2 ^ 64 := by
  have hword := page.toNat_lt
  cases n with
  | zero => simp
  | succ n =>
    have hlast := (lt_stops_iff hpage).1 hn
    rw [Nat.succ_mul]
    -- A second stop lies a whole page further on, so that a page is no longer than the buffer.
    rcases Nat.eq_zero_or_pos n with rfl | hpos
    · omega
    · have := Nat.le_mul_of_pos_left page.toNat hpos
      omega

theorem toNat_offset_after (hpage : 0 < page.toNat) (hsize : bytes.size < 2 ^ 63) {n : Nat}
    (hn : n ≤ stops page.toNat bytes.size) : (after page bytes n).offset.toNat = n * page.toNat :=
  UInt64.toNat_ofNat_of_lt' (offset_lt hpage hsize hn)

theorem isOver_after_iff (hpage : 0 < page.toNat) (hsize : bytes.size < 2 ^ 63) {n : Nat}
    (hn : n ≤ stops page.toNat bytes.size) : (after page bytes n).IsOver ↔ n = stops page.toNat bytes.size := by
  have hiff : n < stops page.toNat bytes.size ↔ n * page.toNat < bytes.size := lt_stops_iff hpage
  unfold IsOver
  rw [toNat_offset_after hpage hsize hn]
  show bytes.size ≤ n * page.toNat ↔ _
  omega

theorem round?_after (hpage : 0 < page.toNat) (hsize : bytes.size < 2 ^ 63) {n : Nat}
    (hn : n < stops page.toNat bytes.size) : (after page bytes n).round? page = some (after page bytes (n + 1)) := by
  have hoffset := toNat_offset_after hpage hsize hn.le
  have hmore : (after page bytes n).offset.toNat < (after page bytes n).bytes.size := by
    rw [hoffset]
    exact (lt_stops_iff hpage).1 hn
  have hsum : (after page bytes n).offset.toNat + page.toNat = (n + 1) * page.toNat := by
    rw [hoffset, Nat.succ_mul]
  have hnext : Word.add? (after page bytes n).offset page = some (after page bytes (n + 1)).offset := by
    unfold Word.add?
    rw [if_pos (hsum ▸ offset_lt hpage hsize hn)]
    show some (UInt64.ofNat (n * page.toNat) + page) = some (.ofNat ((n + 1) * page.toNat))
    rw [Nat.succ_mul, UInt64.ofNat_add, UInt64.ofNat_toNat]
  unfold round?
  rw [if_pos hmore, hnext, hoffset]
  simp [after, List.range_succ]

/-- A walk visits one byte in each round, until it has visited them all. -/
theorem rounds?_start (hpage : 0 < page.toNat) (hsize : bytes.size < 2 ^ 63) (n : Nat) :
    (start bytes).rounds? page n = some (after page bytes (min n (stops page.toNat bytes.size))) := by
  induction n with
  | zero => simp [rounds?, start, after]
  | succ n ih =>
    simp only [rounds?, ih, Option.bind_eq_bind, Option.bind_some]
    rcases Nat.lt_or_ge n (stops page.toNat bytes.size) with hlt | hge
    · rw [min_eq_left hlt.le, min_eq_left hlt]
      exact round?_after hpage hsize hlt
    · rw [min_eq_right hge, min_eq_right (Nat.le_succ_of_le hge)]
      have hover : (after page bytes (stops page.toNat bytes.size)).IsOver :=
        (isOver_after_iff hpage hsize le_rfl).2 rfl
      exact if_neg (Nat.not_lt.2 hover)

/-- However long a walk is left to itself, there is one end that it comes to. -/
theorem eq_after_of_isOver (hpage : 0 < page.toNat) (hsize : bytes.size < 2 ^ 63) {n : Nat} {w : Walk}
    (hw : (start bytes).rounds? page n = some w) (hover : w.IsOver) :
    w = after page bytes (stops page.toNat bytes.size) := by
  rw [rounds?_start hpage hsize n, Option.some_inj] at hw
  subst hw
  rw [(isOver_after_iff hpage hsize (Nat.min_le_right _ _)).1 hover]

end Walk

/-! ## Pages -/

/-- A buffer of this length has a byte in the `n`-th page. -/
def Meets (page base length n : Nat) : Prop :=
  ∃ offset < length, (base + offset) / page = n

/-- One of the offsets lies in the `n`-th page. -/
def Reaches (page base : Nat) (offsets : List Nat) (n : Nat) : Prop :=
  ∃ offset ∈ offsets, (base + offset) / page = n

/-- The page that the last byte of a buffer lies in. -/
def lastPage (page base length : Nat) : Nat :=
  (base + (length - 1)) / page

section

variable {page base length n : Nat}

/-- A buffer lies in the pages from that of its first byte to that of its last one. -/
theorem meets_iff (hpage : 0 < page) :
    Meets page base length n ↔ 0 < length ∧ base / page ≤ n ∧ n ≤ lastPage page base length := by
  unfold lastPage
  constructor
  · rintro ⟨offset, hlt, rfl⟩
    exact ⟨by omega, Nat.div_le_div_right (by omega), Nat.div_le_div_right (by omega)⟩
  · rintro ⟨hlength, hfirst, hlast⟩
    rw [Nat.le_div_iff_mul_le hpage] at hlast
    -- The first byte of the page, or that of the buffer where it begins later.
    refine ⟨n * page - base, by omega, ?_⟩
    rcases Nat.le_total (n * page) base with hle | hle
    · rw [Nat.sub_eq_zero_of_le hle]
      exact le_antisymm hfirst ((Nat.le_div_iff_mul_le hpage).2 hle)
    · rw [Nat.add_sub_cancel' hle]
      exact Nat.mul_div_cancel n hpage

/-- A walk is in one page after the other, from that of the first byte on. -/
theorem reaches_touched_iff (hpage : 0 < page) :
    Reaches page base (touched page length) n ↔
      base / page ≤ n ∧ n < base / page + stops page length := by
  have hplace (i : Nat) : (base + i * page) / page = base / page + i := Nat.add_mul_div_right base i hpage
  unfold Reaches
  simp only [touched_eq hpage, List.mem_map, List.mem_range]
  constructor
  · rintro ⟨-, ⟨i, hi, rfl⟩, rfl⟩
    rw [hplace]
    omega
  · rintro ⟨hfirst, hlast⟩
    refine ⟨_, ⟨n - base / page, by omega, rfl⟩, ?_⟩
    rw [hplace]
    omega

/-- Of the pages that a buffer lies in, a walk misses at most the last one, and that one only if the buffer's last byte
is nearer to the start of its page than the first one. -/
theorem reaches_touched_of_meets (hpage : 0 < page) (hmeets : Meets page base length n) :
    Reaches page base (touched page length) n ↔
      n ≠ lastPage page base length ∨ base % page ≤ (base + (length - 1)) % page := by
  obtain ⟨hlength, hfirst, hlast⟩ := (meets_iff hpage).1 hmeets
  have hend : lastPage page base length =
      base / page + (length - 1) / page + if page ≤ base % page + (length - 1) % page then 1 else 0 :=
    Nat.add_div hpage
  have hrest := Nat.add_mod_eq_ite (m := base) (n := length - 1) (k := page)
  have := Nat.mod_lt (length - 1) hpage
  rw [reaches_touched_iff hpage, stops_eq hpage hlength]
  by_cases hover : page ≤ base % page + (length - 1) % page
  · -- The last byte is over the end of a page once more than the stops are.
    rw [if_pos hover] at hend hrest
    omega
  · rw [if_neg hover] at hend hrest
    omega

end

/-! ## Whole buffers -/

/-- A walk over a buffer that begins at `base` comes to its end, leaves the bytes as they are, and has then been in every
page that the buffer lies in. -/
def BringsIn (page : UInt64) (base : Nat) (bytes : Array UInt8) : Prop :=
  ∃ rounds w, (Walk.start bytes).rounds? page rounds = some w ∧ w.IsOver ∧ w.bytes = bytes ∧
    ∀ n, Meets page.toNat base bytes.size n → Reaches page.toNat base w.visited n

section

variable {page : UInt64} {base : Nat} {bytes : Array UInt8}

/-- The buffers that are brought in whole are those whose last byte is no nearer to the start of its page than the first
one. -/
theorem bringsIn_iff (hpage : 0 < page.toNat) (hsize : bytes.size < 2 ^ 63) :
    BringsIn page base bytes ↔ base % page.toNat ≤ (base + (bytes.size - 1)) % page.toNat := by
  have htouched : touched page.toNat bytes.size = _ := touched_eq hpage
  constructor
  · rintro ⟨rounds, w, hw, hover, -, hall⟩
    obtain rfl := Walk.eq_after_of_isOver hpage hsize hw hover
    rcases Nat.eq_zero_or_pos bytes.size with hzero | hpos
    · rw [hzero]
      exact le_rfl
    · have hmeets : Meets page.toNat base bytes.size (lastPage page.toNat base bytes.size) :=
        ⟨bytes.size - 1, by omega, rfl⟩
      have hreaches := hall _ hmeets
      simp only [Walk.after, ← htouched] at hreaches
      rw [reaches_touched_of_meets hpage hmeets] at hreaches
      exact hreaches.resolve_left fun hne => hne rfl
  · intro hfits
    refine ⟨_, _, Walk.rounds?_start hpage hsize (stops page.toNat bytes.size), ?_, rfl, ?_⟩
    · rw [min_self]
      exact (Walk.isOver_after_iff hpage hsize le_rfl).2 rfl
    · intro n hmeets
      simp only [min_self, Walk.after, ← htouched]
      exact (reaches_touched_of_meets hpage hmeets).2 (.inr hfits)

/-- A buffer that begins with a page is brought in whole. -/
theorem bringsIn_of_dvd (hpage : 0 < page.toNat) (hsize : bytes.size < 2 ^ 63) (hbase : page.toNat ∣ base) :
    BringsIn page base bytes := by
  rw [bringsIn_iff hpage hsize, Nat.mod_eq_zero_of_dvd hbase]
  exact Nat.zero_le _

end

/-- Bytes for sixty-four pages that begin sixteen bytes behind the start of a page are not brought in whole: the last
sixteen of them lie in a page that the walk does not get to. -/
theorem shifted_page_missed : ¬ BringsIn 4096 4112 (Array.replicate 262144 0) := by
  have hsize : (Array.replicate 262144 (0 : UInt8)).size = 262144 := Array.size_replicate
  rw [bringsIn_iff (by decide) (by omega), hsize]
  decide

/-- A buffer of any bytes anywhere, and pages of any size. A walk that has visited all its stops is over and stays so, and
no sum on the way was too large for a word. It has left the bytes as they were, and it has been in every page that the
buffer lies in but perhaps the last, at a byte of the buffer. It has been in the last one exactly if the buffer's last
byte is no nearer to the start of its page than the first one. -/
theorem pages_brought_in (page : UInt64) (hpage : 0 < page.toNat) (base : Nat) (bytes : Array UInt8)
    (hsize : bytes.size < 2 ^ 63) :
    ∃ w : Walk, (∀ rounds ≥ stops page.toNat bytes.size, (Walk.start bytes).rounds? page rounds = some w) ∧ w.IsOver ∧
      w.bytes = bytes ∧ w.bytes = prefault page.toNat bytes ∧ w.visited = touched page.toNat bytes.size ∧
      (∀ offset ∈ w.visited, offset < bytes.size) ∧
      ∀ n, Meets page.toNat base bytes.size n →
        (Reaches page.toNat base w.visited n ↔
          n ≠ lastPage page.toNat base bytes.size ∨
            base % page.toNat ≤ (base + (bytes.size - 1)) % page.toNat) := by
  have htouched : touched page.toNat bytes.size = _ := touched_eq hpage
  refine ⟨Walk.after page bytes (stops page.toNat bytes.size), ?_, ?_, rfl, (prefault_eq _ _).symm, htouched.symm, ?_,
    ?_⟩
  · intro rounds hrounds
    rw [Walk.rounds?_start hpage hsize, min_eq_right hrounds]
  · exact (Walk.isOver_after_iff hpage hsize le_rfl).2 rfl
  · intro offset hmem
    simp only [Walk.after, ← htouched] at hmem
    exact lt_of_mem_touched hpage hmem
  · intro n hmeets
    simp only [Walk.after, ← htouched]
    exact reaches_touched_of_meets hpage hmeets

/-- Six bytes in three pages of four bytes: one byte, four and one. The walk is in the first page and in the second. -/
theorem two_of_three_pages_brought_in :
    ∃ w : Walk, (Walk.start #[5, 6, 7, 8, 9, 10]).rounds? 4 2 = some w ∧ w.IsOver ∧ w.bytes = #[5, 6, 7, 8, 9, 10] ∧
      Reaches 4 3 w.visited 0 ∧ Reaches 4 3 w.visited 1 ∧ ¬ Reaches 4 3 w.visited 2 := by
  obtain ⟨w, hrounds, hover, hbytes, -, -, -, hpages⟩ :=
    pages_brought_in 4 (by decide) 3 #[5, 6, 7, 8, 9, 10] (by decide)
  refine ⟨w, hrounds 2 (by decide), hover, hbytes, ?_, ?_, ?_⟩
  · exact (hpages 0 ⟨0, by decide, by decide⟩).2 (.inl (by decide))
  · exact (hpages 1 ⟨1, by decide, by decide⟩).2 (.inl (by decide))
  · intro hlast
    have hfits := (hpages 2 ⟨5, by decide, by decide⟩).1 hlast
    revert hfits
    decide

end TimestampRelay.Memory
