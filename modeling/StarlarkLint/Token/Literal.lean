/-!
# String literals

The characters behind the opening quote of a literal are read up to its closing quote.  In an
ordinary literal a backslash starts an escape; in a raw one a backslash and the character behind it
both belong to the content.  Between single quotes a line feed ends the reading, unless a backslash
stands before it; between triple quotes it is content.

## Main definitions

* `Escape.read` — what the characters behind a backslash stand for.
* `Literal.ordinary`, `Literal.raw` — the content up to the closing quote.
* `Literal.read` — a literal from its opening quote on.
-/

namespace StarlarkLint

/-- The value of an octal digit. -/
def octalDigit? (c : Char) : Option Nat :=
  if '0' ≤ c ∧ c ≤ '7' then some (c.toNat - '0'.toNat) else none

/-- The value of a hexadecimal digit. -/
def hexDigit? (c : Char) : Option Nat :=
  if '0' ≤ c ∧ c ≤ '9' then some (c.toNat - '0'.toNat)
  else if 'a' ≤ c ∧ c ≤ 'f' then some (c.toNat - 'a'.toNat + 10)
  else if 'A' ≤ c ∧ c ≤ 'F' then some (c.toNat - 'A'.toNat + 10)
  else none

/-- The character that a letter or sign stands for behind a backslash. -/
def namedEscape? : Char → Option Char
  | 'n' => some '\n'
  | 't' => some '\t'
  | 'r' => some '\r'
  | 'a' => some '\x07'
  | 'b' => some '\x08'
  | 'f' => some '\x0c'
  | 'v' => some '\x0b'
  | '"' => some '"'
  | '\'' => some '\''
  | '\\' => some '\\'
  | _ => none

namespace Escape

/-- An octal escape: up to three digits, given the value of those read so far.  The answer is the
value and the number of characters read. -/
def octal : Nat → Nat → List Char → Nat × Nat
  | 0, value, _ => (value, 0)
  | _ + 1, value, [] => (value, 0)
  | limit + 1, value, c :: cs =>
    match octalDigit? c with
    | some d => let (v, n) := octal limit (value * 8 + d) cs; (v, n + 1)
    | none => (value, 0)

/-- What the characters behind a backslash stand for, and how many of them belong to the escape.
The error is the number of characters before the place where a hexadecimal digit is missing. -/
def read : List Char → Except Nat (List Char × Nat)
  | [] => .ok (['\\'], 0)
  | c :: cs =>
    match namedEscape? c with
    | some stands => .ok ([stands], 1)
    | none =>
      if c = '\n' then .ok ([], 1)
      else if (octalDigit? c).isSome then
        let (value, n) := octal 3 0 (c :: cs)
        .ok ([Char.ofNat value], n)
      else if c = 'x' then
        match cs with
        | [] => .error 1
        | high :: rest =>
          match hexDigit? high, rest with
          | none, _ => .error 1
          | some _, [] => .error 2
          | some h, low :: _ =>
            match hexDigit? low with
            | none => .error 2
            | some l => .ok ([Char.ofNat (h * 16 + l)], 3)
      else .ok (['\\', c], 1)

end Escape

/-- The outcome of reading a literal.  Each case counts the characters that were read. -/
inductive Literal
  /-- The content, with the closing quote read. -/
  | closed (content : List Char) (used : Nat)
  /-- The text or the line ends before the closing quote. -/
  | unterminated (used : Nat)
  /-- A hexadecimal escape lacks a digit. -/
  | missingHexDigit (used : Nat)
  deriving DecidableEq, Repr

namespace Literal

/-- The outcome with content in front that takes up the given number of characters. -/
def prepend (content : List Char) (n : Nat) : Literal → Literal
  | closed more used => closed (content ++ more) (n + used)
  | unterminated used => unterminated (n + used)
  | missingHexDigit used => missingHexDigit (n + used)

/-- The number of characters read. -/
def used : Literal → Nat
  | closed _ n => n
  | unterminated n => n
  | missingHexDigit n => n

@[simp] theorem used_prepend (content : List Char) (n : Nat) (l : Literal) :
    (prepend content n l).used = n + l.used := by
  cases l <;> rfl

/-- Whether the closing quote stands at the head of a text, and its length. -/
def closing? (quote : Char) (triple : Bool) (cs : List Char) : Option Nat :=
  if triple then if [quote, quote, quote].isPrefixOf cs then some 3 else none
  else if [quote].isPrefixOf cs then some 1 else none

/-- The content of an ordinary literal, from behind its opening quote. -/
def ordinary (quote : Char) (triple : Bool) : List Char → Literal
  | [] => unterminated 0
  | c :: cs =>
    if c = '\n' ∧ triple = false then unterminated 0
    else match closing? quote triple (c :: cs) with
      | some n => closed [] n
      | none =>
        -- the escape is read as a whole, so that a quote in it does not close the literal
        if c = '\\' then
          match Escape.read cs with
          | .error n => missingHexDigit (n + 1)
          | .ok (content, n) => prepend content (n + 1) (ordinary quote triple (cs.drop n))
        else prepend [c] 1 (ordinary quote triple cs)
termination_by cs => cs.length
decreasing_by all_goals grind

/-- The content of a raw literal, from behind its opening quote. -/
def raw (quote : Char) (triple : Bool) : List Char → Literal
  | [] => unterminated 0
  | c :: cs =>
    if c = '\n' ∧ triple = false then unterminated 0
    else match closing? quote triple (c :: cs) with
      | some n => closed [] n
      | none =>
        -- a quote behind a backslash does not close a raw literal either
        match c, cs with
        | '\\', [] => unterminated 1
        | '\\', d :: rest => prepend ['\\', d] 2 (raw quote triple rest)
        | c, cs => prepend [c] 1 (raw quote triple cs)
termination_by cs => cs.length

/-- A literal, from behind the first character of its opening quote: three quotes in a row open a
literal that only three quotes close. -/
def read (body : Char → Bool → List Char → Literal) (quote : Char) (cs : List Char) : Literal :=
  if [quote, quote].isPrefixOf cs then prepend [] 2 (body quote true (cs.drop 2))
  else body quote false cs

end Literal

end StarlarkLint
