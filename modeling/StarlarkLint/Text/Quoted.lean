import StarlarkLint.Text.Printable

/-!
# Quoted text

Messages show a text between quotes.  Single quotes are used unless the text holds a single quote
and no double quote.  The quote in use, the backslash and the three common control characters are
written with a backslash; other characters that are not printable are written by their number, in
the fewest of two, four or eight hexadecimal digits.

## Main definitions

* `hex` — a number in hexadecimal digits, padded to a width.
* `quoteFor`, `quoted` — the choice of the quote, and the text between quotes.
* `quotedBytes` — bytes between quotes.
-/

namespace StarlarkLint.Text

/-- A number in lower case hexadecimal digits, with zeros in front up to the given width. -/
def hex (width n : Nat) : String :=
  let digits := Nat.toDigits 16 n
  String.ofList (List.replicate (width - digits.length) '0' ++ digits)

/-- The quote that a text is shown in. -/
def quoteFor (text : String) : Char :=
  if '\'' ∈ text.toList ∧ '"' ∉ text.toList then '"' else '\''

/-- A character as it stands between quotes. -/
def quotedChar (quote c : Char) : String :=
  if c = '\\' then "\\\\"
  else if c = quote then String.ofList ['\\', c]
  else if c = '\n' then "\\n"
  else if c = '\r' then "\\r"
  else if c = '\t' then "\\t"
  else if isPrintable c then c.toString
  else if c.toNat < 0x100 then "\\x" ++ hex 2 c.toNat
  else if c.toNat < 0x10000 then "\\u" ++ hex 4 c.toNat
  else "\\U" ++ hex 8 c.toNat

/-- A text between quotes. -/
def quoted (text : String) : String :=
  let quote := quoteFor text
  quote.toString ++ String.join (text.toList.map (quotedChar quote)) ++ quote.toString

/-- A byte as it stands between quotes; only those of ASCII stand for characters. -/
def quotedByte (quote : Char) (b : UInt8) : String :=
  if b < 0x80 then quotedChar quote (Char.ofNat b.toNat) else "\\x" ++ hex 2 b.toNat

/-- Bytes between quotes, behind the letter that tells them from a text. -/
def quotedBytes (bytes : List UInt8) : String :=
  let quote := quoteFor (String.ofList (bytes.map fun b => Char.ofNat b.toNat))
  "b" ++ quote.toString ++ String.join (bytes.map (quotedByte quote)) ++ quote.toString

end StarlarkLint.Text
