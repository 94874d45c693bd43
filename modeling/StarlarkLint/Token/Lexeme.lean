import StarlarkLint.Text.Letter
import StarlarkLint.Token.Basic
import StarlarkLint.Token.Literal

/-!
# Lexemes

What stands at the head of a text that does not start with a blank: a lexeme, with its kind, the
text it stands for and the number of characters it takes up; or a fault.  Neither depends on what
was read before, on the place in the text, or on open brackets.

## Main definitions

* `Lexeme`, `LexFault` — the two outcomes.
* `Lexeme.read` — the outcome for a text that is not empty.
-/

namespace StarlarkLint

/-- Why a text has no further token. -/
inductive LexProblem
  /-- A string literal is not closed. -/
  | unterminatedString
  /-- A hexadecimal escape lacks a digit. -/
  | invalidHexEscape
  /-- No token starts with this character. -/
  | unexpectedCharacter (c : Char)
  /-- A problem in the words of the caller. -/
  | other (text : String)
  deriving DecidableEq, Repr, Inhabited

/-- A problem in words. -/
def LexProblem.text : LexProblem → String
  | unterminatedString => "Unterminated string"
  | invalidHexEscape => "Invalid \\x escape in string"
  | unexpectedCharacter c => "Unexpected character " ++ Text.quoted c.toString
  | other text => text

/-- A problem at the head of a text. -/
structure LexFault where
  /-- What is wrong. -/
  problem : LexProblem
  /-- The number of characters before the place that is reported. -/
  place : Nat := 0
  /-- The number of characters before the place where reading stopped. -/
  reached : Nat := 0
  deriving DecidableEq, Repr

/-- A token without its place. -/
structure Lexeme where
  /-- What it is. -/
  kind : TokenKind
  /-- The text it stands for. -/
  value : String
  /-- The number of characters it takes up. -/
  length : Nat
  /-- It takes up at least one character. -/
  length_pos : 0 < length := by omega
  deriving DecidableEq, Repr

namespace Lexeme

/-- The signs that may be the beginning of a longer sign. -/
def sign? (c : Char) (cs : List Char) : Option Lexeme :=
  let next := cs.head?
  match c with
  | '*' =>
    if next = some '*' then some { kind := .doubleStar, value := "**", length := 2 }
    else some { kind := .star, value := "*", length := 1 }
  | '/' =>
    if next = some '/' then some { kind := .doubleSlash, value := "//", length := 2 }
    else some { kind := .slash, value := "/", length := 1 }
  | '+' =>
    if next = some '=' then some { kind := .plusEquals, value := "+=", length := 2 }
    else some { kind := .plus, value := "+", length := 1 }
  | '=' =>
    if next = some '=' then some { kind := .compare, value := "==", length := 2 }
    else some { kind := .equals, value := "=", length := 1 }
  | '<' =>
    if next = some '=' then some { kind := .compare, value := "<=", length := 2 }
    else some { kind := .compare, value := "<", length := 1 }
  | '>' =>
    if next = some '=' then some { kind := .compare, value := ">=", length := 2 }
    else some { kind := .compare, value := ">", length := 1 }
  | '!' =>
    if next = some '=' then some { kind := .compare, value := "!=", length := 2 } else none
  | _ => none

/-- The characters a number goes on with: those of names, and a dot before a digit. -/
def numberTail : List Char → List Char
  | [] => []
  | c :: cs =>
    if Text.isWordPart c then c :: numberTail cs
    else if c = '.' ∧ cs.head?.any Text.isDigit then c :: numberTail cs
    else []

/-- Whether a number starts here: with a digit, or with a dot before a digit. -/
def startsNumber (c : Char) (cs : List Char) : Bool :=
  Text.isDigit c || (c == '.' && cs.head?.any Text.isDigit)

/-- Whether a character opens a literal. -/
def isQuote (c : Char) : Bool := c == '"' || c == '\''

/-- The quote of a raw literal that starts with `c`, and what follows it. -/
def rawQuote? (c : Char) : List Char → Option (Char × List Char)
  | [] => none
  | quote :: rest => if (c = 'r' ∨ c = 'R') ∧ isQuote quote then some (quote, rest) else none

/-- The lexeme or fault of a literal, with `shift` characters in front of its quote. -/
def ofLiteral (shift : Nat) : Literal → Except LexFault Lexeme
  | .closed content used =>
    .ok
      { kind := .string, value := String.ofList content, length := shift + used + 1
        length_pos := Nat.succ_pos _ }
  | .unterminated used =>
    .error { problem := .unterminatedString, place := shift, reached := shift + used + 1 }
  | .missingHexDigit used =>
    .error { problem := .invalidHexEscape, place := shift + used + 1, reached := shift + used + 1 }

/-- The lexeme of a name. -/
def ofWord (c : Char) (tail : List Char) : Lexeme :=
  let text := String.ofList (c :: tail)
  { kind := if text ∈ keywords then .keyword else .identifier
    value := text
    length := tail.length + 1 }

/-- The lexeme of a number. -/
def ofNumber (c : Char) (tail : List Char) : Lexeme :=
  { kind := .number, value := String.ofList (c :: tail), length := tail.length + 1 }

/-- The lexeme of a single sign. -/
def ofSign (kind : TokenKind) (c : Char) : Lexeme := { kind, value := c.toString, length := 1 }

/-- What stands at the head of the text that starts with `c` and goes on with `cs`. -/
def read (c : Char) (cs : List Char) : Except LexFault Lexeme :=
  if c = '\n' then .ok { kind := .newline, value := "\n", length := 1 }
  else if c = '#' then
    let text := cs.takeWhile (· ≠ '\n')
    .ok { kind := .comment, value := String.ofList text, length := text.length + 1 }
  -- the letter of a raw literal is not taken for a name
  else if isQuote c then ofLiteral 0 (Literal.read Literal.ordinary c cs)
  else match rawQuote? c cs with
  | some (quote, rest) => ofLiteral 1 (Literal.read Literal.raw quote rest)
  | none => match sign? c cs with
  | some lexeme => .ok lexeme
  | none =>
    -- this sign is read before it turns out to stand alone, any other stray character is not
    if c = '!' then .error { problem := .unexpectedCharacter c, reached := 1 }
    -- a dot before a digit belongs to a number, so that numbers come before single signs
    else if startsNumber c cs then .ok (ofNumber c (numberTail cs))
    else match TokenKind.ofChar? c with
    | some kind => .ok (ofSign kind c)
    | none =>
      if Text.isWordStart c then .ok (ofWord c (cs.takeWhile Text.isWordPart))
      else .error { problem := .unexpectedCharacter c }

end Lexeme

end StarlarkLint
