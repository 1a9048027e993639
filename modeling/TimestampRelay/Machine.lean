/-
What is asked of the machine below: memory pages that are touched before use, and cores that a
thread can be bound to.
-/
import TimestampRelay.Fault

namespace TimestampRelay

namespace Memory

/-- The page size where the machine names none. -/
def defaultPageSize : Nat := 4096

/-- The offsets touched in a buffer: its first byte, and from there one byte every page. -/
def touched (page length : Nat) : List Nat :=
  if 0 < page then (List.range ((length + page - 1) / page)).map (· * page) else []

/-- Reads the byte at an offset and writes it back. -/
def touch (bytes : Array UInt8) (offset : Nat) : Array UInt8 :=
  if h : offset < bytes.size then bytes.set offset bytes[offset] else bytes

/-- Touches one byte every page, so that the pages are mapped before the buffer is used. -/
def prefault (page : Nat) (bytes : Array UInt8) : Array UInt8 :=
  (touched page bytes.size).foldl touch bytes

end Memory

namespace Affinity

/-- Cores are numbered below this bound. -/
def coreLimit : UInt64 := 1024

/-- The refusal of a core that no thread can be bound to. -/
def refusal? (core : UInt64) : Option MachineFault :=
  if core < coreLimit then none
  else some ⟨"InvalidInput", "core " ++ toString core ++ " is outside the cpu_set_t range"⟩

end Affinity

/-- The machine as far as it can refuse: a stage on a core, and memory that is to be locked. -/
structure Machine where
  refusesCore : StageKind → UInt64 → Option MachineFault
  refusesLock : Option MachineFault

namespace Machine

/-- A machine that refuses nothing but cores that do not exist. -/
def willing : Machine :=
  ⟨fun _ _ => none, none⟩

/-- The refusal of a core: it does not exist, or the machine refuses it. -/
def refusal? (m : Machine) (stage : StageKind) (core : UInt64) : Option MachineFault :=
  (Affinity.refusal? core).or (m.refusesCore stage core)

end Machine

end TimestampRelay
