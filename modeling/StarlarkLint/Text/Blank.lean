import StarlarkLint.Text.Ranges

/-!
# Blanks and comma lists

A list of names may be given as one text, with commas between the names.  Blanks around a name do
not count, and neither do names that are empty.  A blank is a character with the bidirectional type
of a separator or blank, or of category `Zs`.

## Main definitions

* `isBlank`, `trim` — blanks, and a text without those at its ends.
* `commaList` — the names in a comma list.
-/

namespace StarlarkLint.Text

/-- Blank characters. -/
def blankRanges : Ranges :=
  [(0x9, 0xd), (0x1c, 0x20), (0x85, 0x85), (0xa0, 0xa0), (0x1680, 0x1680), (0x2000, 0x200a),
   (0x2028, 0x2029), (0x202f, 0x202f), (0x205f, 0x205f), (0x3000, 0x3000)]

/-- Whether a character is blank. -/
def isBlank (c : Char) : Bool := blankRanges.holds c.toNat

/-- The text without blanks at its ends. -/
def trim (text : List Char) : List Char :=
  ((text.dropWhile isBlank).reverse.dropWhile isBlank).reverse

/-- The names in a comma list: trimmed, the empty ones left out. -/
def commaList (text : String) : List String :=
  (((text.toList.splitOn ',').map trim).filter (· ≠ [])).map String.ofList

end StarlarkLint.Text
