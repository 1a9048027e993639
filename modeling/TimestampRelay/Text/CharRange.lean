/-
Classes of characters as lists of closed ranges of code points.
-/

namespace TimestampRelay.Text

/-- A closed range of code points: the first and the last. -/
abbrev CharRange := Nat × Nat

/-- Whether a character lies in one of the ranges. -/
def inRanges (ranges : List CharRange) (c : Char) : Bool :=
  ranges.any fun (first, last) => first ≤ c.toNat && c.toNat ≤ last

end TimestampRelay.Text
