/-!
# Places in a YAML text

Indentation is what gives a YAML text its structure, so that reading keeps the column of a place as
well as the characters from there on.  Four characters end a line; a byte order mark takes up no
column.

## Main definitions

* `Yaml.Cursor`, `Cursor.skip` — a place, and the place some characters further on.
* `Yaml.isBreak`, `Yaml.endsWord` — the ends of lines, and the characters that end a word.
* `Cursor.lineBreak?` — the end of a line, as it counts in the text.
* `Yaml.Problem` — what may be wrong with a text.
-/

namespace StarlarkLint.Yaml

/-- What is wrong with a text. -/
inductive Problem
  /-- It holds a character that no text may hold. -/
  | unprintable
  /-- It cannot be divided into tokens. -/
  | badToken
  /-- Its tokens do not follow the grammar. -/
  | badStructure
  /-- An alias names no anchor, or two anchors have one name. -/
  | badReference
  /-- A node cannot have the value that its tag asks for. -/
  | badValue
  /-- A scalar has the form or the tag of a number or a time, but there is none that it spells. -/
  | noSuchValue
  deriving DecidableEq, Repr, Inhabited

/-- What is wrong, in words. -/
def Problem.text : Problem → String
  | unprintable => "special characters are not allowed"
  | badToken => "found characters that form no token"
  | badStructure => "found a token where it cannot stand"
  | badReference => "found an undefined alias or a duplicate anchor"
  | badValue => "could not determine the value of a node"
  | noSuchValue => "found a number or a time that there is not"

/-- Characters that end a line. -/
def isBreak (c : Char) : Bool := c == '\n' || c == '\x85' || c == '\u2028' || c == '\u2029'

/-- Whether the next character, if there is one, ends a word: a blank, a tab or the end of a
line. -/
def endsWord : Option Char → Bool
  | none => true
  | some c => c == ' ' || c == '\t' || isBreak c

/-- Whether the next character, if there is one, ends a word that may be followed by a tab. -/
def endsTerm : Option Char → Bool
  | none => true
  | some c => c == ' ' || isBreak c

/-- A place in a text. -/
structure Cursor where
  /-- The characters from the place on. -/
  rest : List Char
  /-- The number of characters before the place. -/
  index : Nat := 0
  /-- The number of lines before the place. -/
  line : Nat := 0
  /-- The number of columns before the place. -/
  column : Nat := 0
  deriving Repr, Inhabited

namespace Cursor

/-- The character at a place. -/
def next? (c : Cursor) : Option Char := c.rest.head?

/-- The character behind the one at a place. -/
def second? (c : Cursor) : Option Char := (c.rest.drop 1).head?

/-- The place `n` characters further on. -/
def skip : Nat → Cursor → Cursor
  | 0, c => c
  | _ + 1, ⟨[], index, line, column⟩ => ⟨[], index, line, column⟩
  | n + 1, ⟨ch :: cs, index, line, column⟩ =>
    skip n
      (if isBreak ch then ⟨cs, index + 1, line + 1, 0⟩
      else ⟨cs, index + 1, line, if ch = '\ufeff' then column else column + 1⟩)

/-- The place behind the characters of a class, and those characters. -/
def takeWhile (p : Char → Bool) (c : Cursor) : List Char × Cursor :=
  let taken := c.rest.takeWhile p
  (taken, c.skip taken.length)

/-- The place behind the blanks. -/
def skipSpaces (c : Cursor) : Cursor := (c.takeWhile (· == ' ')).2

/-- The end of a line, if one stands here: two of the four count as a line feed, the others as
themselves. -/
def lineBreak? (c : Cursor) : Option (Char × Cursor) :=
  match c.rest with
  | ch :: _ =>
    if isBreak ch then some (if ch = '\x85' then '\n' else ch, c.skip 1) else none
  | [] => none

/-- The place behind what is left of the line but for its end. -/
def skipLine (c : Cursor) : Cursor := (c.takeWhile (!isBreak ·)).2

/-- Whether three equal signs and the end of a word stand here. -/
def atMark (sign : Char) (c : Cursor) : Bool :=
  [sign, sign, sign].isPrefixOf c.rest && endsWord (c.rest.drop 3).head?

/-- Whether a mark between documents stands here. -/
def atSeparator (c : Cursor) : Bool := c.atMark '-' || c.atMark '.'

end Cursor

/-- Whether a text may hold a character: tabs, line ends and printable characters. -/
def isAllowed (c : Char) : Bool :=
  let n := c.toNat
  n == 0x9 || n == 0xa || n == 0xd || (0x20 ≤ n && n ≤ 0x7e) || n == 0x85
    || (0xa0 ≤ n && n ≤ 0xd7ff) || (0xe000 ≤ n && n ≤ 0xfffd) || 0x10000 ≤ n

end StarlarkLint.Yaml
