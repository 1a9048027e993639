/-
Quoted text: a string between double quotes, with an escape for the quote, the backslash and every
character that would not be visible as itself.
-/
import TimestampRelay.Text.Combining
import TimestampRelay.Text.NonGraphic

namespace TimestampRelay.Text

/-- Whether a character stands for itself between quotes: it is graphic, and it does not join the
character before it. -/
def visible (c : Char) : Bool :=
  if c.toNat < 0x80 then 0x20 ≤ c.toNat && c.toNat < 0x7f
  else !inRanges nonGraphic c && !inRanges combining c

/-- One character between quotes. -/
def quotedChar (c : Char) : String :=
  match c with
  | '\x00' => "\\0"
  | '\t' => "\\t"
  | '\n' => "\\n"
  | '\r' => "\\r"
  | '"' => "\\\""
  | '\\' => "\\\\"
  | c =>
    if visible c then c.toString
    else "\\u\x7b" ++ String.ofList (Nat.toDigits 16 c.toNat) ++ "\x7d"

/-- A string between double quotes. -/
def quoted (s : String) : String :=
  "\"" ++ String.join (s.toList.map quotedChar) ++ "\""

end TimestampRelay.Text
