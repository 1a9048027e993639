/-
Values as text: records on one line or as an indented block, lists, optional values and
hexadecimal numbers. A record that holds more than it shows closes with two dots.
-/

namespace TimestampRelay.Text

/-- A record to be shown: its name, its labelled fields in order, and whether fields are left out. -/
structure Record where
  name : String
  fields : List (String × String)
  partlyShown : Bool := false

/-- A labelled field. -/
def labelled (field : String × String) : String :=
  field.1 ++ ": " ++ field.2

/-- The record on one line: the fields between braces, separated by commas. -/
def Record.line (r : Record) : String :=
  let shown := r.fields.map labelled ++ if r.partlyShown then [".."] else []
  r.name ++ " \x7b " ++ ", ".intercalate shown ++ " \x7d"

/-- The record as a block: one field a line, indented by four blanks and closed by a comma. -/
def Record.block (r : Record) : String :=
  let shown := r.fields.map (fun field => labelled field ++ ",") ++ if r.partlyShown then [".."] else []
  r.name ++ " \x7b\n" ++ String.join (shown.map fun text => "    " ++ text ++ "\n") ++ "\x7d"

/-- A list between square brackets. -/
def list (items : List String) : String :=
  "[" ++ ", ".intercalate items ++ "]"

/-- An optional value. -/
def optional {α : Type} (text : α → String) : Option α → String
  | none => "None"
  | some a => "Some(" ++ text a ++ ")"

/-- A number in lower-case hexadecimal digits after its mark. -/
def hex (n : Nat) : String :=
  "0x" ++ String.ofList (Nat.toDigits 16 n)

/-- A number in exactly `width` hexadecimal digits, the leading ones zero. -/
def hexDigits (width n : Nat) : String :=
  let digits := Nat.toDigits 16 n
  String.ofList (List.replicate (width - digits.length) '0' ++ digits)

end TimestampRelay.Text
