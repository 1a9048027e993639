/-
Operations on words that can go wrong: a sum that does not fit a word, a difference below zero, a remainder by zero.
What is meant not to do any of these can be made again with its operations checked, and must come to the same.
-/

namespace TimestampRelay.Word

/-- The sum, unless it does not fit a word. -/
def add? (a b : UInt64) : Option UInt64 :=
  if a.toNat + b.toNat < UInt64.size then some (a + b) else none

/-- The difference, unless it lies below zero. -/
def sub? (a b : UInt64) : Option UInt64 :=
  if b ≤ a then some (a - b) else none

/-- The remainder, unless the divisor is zero. -/
def mod? (a b : UInt64) : Option UInt64 :=
  if b = 0 then none else some (a % b)

end TimestampRelay.Word
