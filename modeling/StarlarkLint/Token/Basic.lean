import StarlarkLint.Position
import StarlarkLint.Text.Quoted

/-!
# Tokens

A token is a kind, the text it stands for, and its span.  The text of a string token is the content
that the literal denotes, the text of a comment what follows the hash; every other token is spelled
as it stands in the source.

## Main definitions

* `TokenKind`, `TokenKind.label` — the kinds and the names they have in messages.
* `Token`, `Token.shown` — tokens, and how one is shown.
* `keywords`, `reservedWords` — names that are operators, and names of statements that are not
  part of the language subset.
-/

namespace StarlarkLint

/-- The kinds of tokens. -/
inductive TokenKind
  /-- A name. -/
  | identifier
  /-- A name that is an operator. -/
  | keyword
  /-- A string literal. -/
  | string
  /-- A number literal. -/
  | number
  /-- The sign `=`. -/
  | equals
  /-- The sign `+=`. -/
  | plusEquals
  /-- An opening parenthesis. -/
  | lparen
  /-- A closing parenthesis. -/
  | rparen
  /-- An opening bracket. -/
  | lbracket
  /-- A closing bracket. -/
  | rbracket
  /-- An opening brace. -/
  | lbrace
  /-- A closing brace. -/
  | rbrace
  /-- A comma. -/
  | comma
  /-- A colon. -/
  | colon
  /-- A semicolon. -/
  | semicolon
  /-- A dot. -/
  | dot
  /-- The sign `*`. -/
  | star
  /-- The sign `**`. -/
  | doubleStar
  /-- The sign `+`. -/
  | plus
  /-- The sign `-`. -/
  | minus
  /-- The sign `/`. -/
  | slash
  /-- The sign `//`. -/
  | doubleSlash
  /-- The sign `%`. -/
  | percent
  /-- The sign `|`. -/
  | pipe
  /-- A comparison sign. -/
  | compare
  /-- A comment. -/
  | comment
  /-- A line feed outside brackets. -/
  | newline
  /-- The end of the text. -/
  | endOfFile
  deriving DecidableEq, Repr, Inhabited

namespace TokenKind

/-- Every kind. -/
def all : List TokenKind :=
  [identifier, keyword, string, number, equals, plusEquals, lparen, rparen, lbracket, rbracket,
   lbrace, rbrace, comma, colon, semicolon, dot, star, doubleStar, plus, minus, slash, doubleSlash,
   percent, pipe, compare, comment, newline, endOfFile]

/-- The name of a kind in messages. -/
def label : TokenKind → String
  | identifier => "IDENTIFIER"
  | keyword => "KEYWORD"
  | string => "STRING"
  | number => "NUMBER"
  | equals => "EQUALS"
  | plusEquals => "PLUS_EQUALS"
  | lparen => "LPAREN"
  | rparen => "RPAREN"
  | lbracket => "LBRACKET"
  | rbracket => "RBRACKET"
  | lbrace => "LBRACE"
  | rbrace => "RBRACE"
  | comma => "COMMA"
  | colon => "COLON"
  | semicolon => "SEMICOLON"
  | dot => "DOT"
  | star => "STAR"
  | doubleStar => "DOUBLE_STAR"
  | plus => "PLUS"
  | minus => "MINUS"
  | slash => "SLASH"
  | doubleSlash => "DOUBLE_SLASH"
  | percent => "PERCENT"
  | pipe => "PIPE"
  | compare => "COMPARE"
  | comment => "COMMENT"
  | newline => "NEWLINE"
  | endOfFile => "EOF"

/-- The kind of a name in messages. -/
def ofLabel? (label : String) : Option TokenKind := all.find? (·.label == label)

@[simp] theorem ofLabel?_label (kind : TokenKind) : ofLabel? kind.label = some kind := by
  cases kind <;> decide

/-- The kind of a character that is a token by itself whatever follows it. -/
def ofChar? : Char → Option TokenKind
  | '(' => some lparen
  | ')' => some rparen
  | '[' => some lbracket
  | ']' => some rbracket
  | '{' => some lbrace
  | '}' => some rbrace
  | ',' => some comma
  | ':' => some colon
  | ';' => some semicolon
  | '.' => some dot
  | '-' => some minus
  | '%' => some percent
  | '|' => some pipe
  | _ => none

/-- The number of open brackets behind a token: a closing bracket without an opening one does not
count. -/
def depthAfter (depth : Nat) : TokenKind → Nat
  | lparen | lbracket | lbrace => depth + 1
  | rparen | rbracket | rbrace => depth - 1
  | _ => depth

end TokenKind

/-- A token. -/
structure Token where
  /-- What it is. -/
  kind : TokenKind
  /-- The text it stands for. -/
  value : String
  /-- Where it stands. -/
  span : Span := {}
  deriving DecidableEq, Repr, Inhabited

/-- Names that are operators. -/
def keywords : List String := ["and", "or", "not", "in"]

/-- Names of statements and expressions that are recognised only to be refused. -/
def reservedWords : List String :=
  ["def", "if", "elif", "else", "for", "while", "return", "lambda", "break", "continue", "pass"]

/-- A token as it is shown to the user: its kind, its text between quotes, and its place. -/
def Token.shown (t : Token) : String :=
  let text := if t.kind = .newline then "'\\n'" else Text.quoted t.value
  "Token(" ++ t.kind.label ++ ", " ++ text ++ ", L" ++ toString t.span.start.line ++ ":"
    ++ toString t.span.start.column ++ ")"

end StarlarkLint
