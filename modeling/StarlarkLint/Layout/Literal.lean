import StarlarkLint.Text.Quoted

/-!
# Writing string literals

A string is written between double quotes on one line.  The double quote, the backslash and the
control characters that have a name are written with a backslash; other control characters of ASCII
by their number.  All else stands for itself.

## Main definitions

* `Literal.escaped` — a character inside a literal.
* `Literal.written` — the literal of a string.
-/

namespace StarlarkLint.Literal

/-- A character as it stands in a literal. -/
def escaped (c : Char) : String :=
  match c with
  | '\\' => "\\\\"
  | '"' => "\\\""
  | '\n' => "\\n"
  | '\t' => "\\t"
  | '\r' => "\\r"
  | '\x07' => "\\a"
  | '\x08' => "\\b"
  | '\x0c' => "\\f"
  | '\x0b' => "\\v"
  | c => if c.toNat < 0x20 ∨ c.toNat = 0x7f then "\\x" ++ Text.hex 2 c.toNat else c.toString

/-- The literal of a string. -/
def written (value : String) : String :=
  "\"" ++ String.join (value.toList.map escaped) ++ "\""

end StarlarkLint.Literal
