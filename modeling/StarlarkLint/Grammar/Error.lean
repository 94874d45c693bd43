import StarlarkLint.Token.Scan

/-!
# Errors of the grammar

## Main definitions

* `ParseProblem` — what may be wrong with a list of tokens.
* `ParseError` — a problem, and the token or the place where it was noticed.
* `SyntaxError` — why a text has no syntax tree.
-/

namespace StarlarkLint

/-- What is wrong with a list of tokens. -/
inductive ParseProblem
  /-- A statement starts with a reserved word. -/
  | unsupportedStatement (word : String)
  /-- A value starts with a reserved word. -/
  | unsupportedExpression (word : String)
  /-- No value starts with this token. -/
  | unexpectedToken (value : String)
  /-- A statement goes on where it should end. -/
  | unexpectedAfterStatement (value : String)
  /-- The tokens end where a value should start. -/
  | unexpectedEnd
  /-- A load statement does not name its module. -/
  | moduleMissing
  /-- A load statement is not closed. -/
  | loadUnclosed
  /-- No name follows a dot. -/
  | memberMissing
  /-- No colon follows a key. -/
  | colonMissing
  /-- A parenthesis is not closed. -/
  | parenthesisUnclosed
  /-- The file ends inside a sequence. -/
  | sequenceUnclosed (closer : TokenKind)
  /-- Neither a comma nor the closing bracket follows an item. -/
  | separatorMissing (closer : TokenKind) (value : String)
  /-- The tokens end right behind an item, without a mark for the end of the file. -/
  | endsBehindItem (closer : TokenKind)
  /-- A problem in the words of the caller. -/
  | other (text : String)
  deriving DecidableEq, Repr, Inhabited

/-- A problem in words. -/
def ParseProblem.text : ParseProblem → String
  | unsupportedStatement word => "Unsupported statement '" ++ word ++ "'"
  | unsupportedExpression word => "Unsupported expression '" ++ word ++ "'"
  | unexpectedToken value => "Unexpected token " ++ Text.quoted value
  | unexpectedAfterStatement value =>
    "Unexpected token " ++ Text.quoted value ++ " after statement"
  | unexpectedEnd => "Unexpected end of input"
  | moduleMissing => "load() requires a module string"
  | loadUnclosed => "Expected ')' to close load()"
  | memberMissing => "Expected member name after '.'"
  | colonMissing => "Expected ':' in dict entry"
  | parenthesisUnclosed => "Expected ')'"
  | sequenceUnclosed closer => "Expected " ++ closer.label ++ ", got end of file"
  | separatorMissing closer value =>
    "Expected ',' or " ++ closer.label ++ ", got " ++ Text.quoted value
  | endsBehindItem closer => "Expected ',' or " ++ closer.label ++ ", got end of file"
  | other text => text

/-- A problem, with the token where it was noticed or, failing that, a place.  A line or column that
is zero is not known. -/
structure ParseError where
  /-- What is wrong. -/
  problem : ParseProblem
  /-- The token where it was noticed. -/
  token : Option Token := none
  /-- A line that takes precedence over the token's in reports. -/
  knownLine : Int := 0
  /-- A column that takes precedence over the token's in reports. -/
  knownColumn : Int := 0
  deriving DecidableEq, Repr, Inhabited

namespace ParseError

/-- The line to report, zero if there is none. -/
def line (e : ParseError) : Int :=
  if e.knownLine ≠ 0 then e.knownLine else (e.token.map (·.span.start.line)).getD 0

/-- The column to report, zero if there is none. -/
def column (e : ParseError) : Int :=
  if e.knownColumn ≠ 0 then e.knownColumn else (e.token.map (·.span.start.column)).getD 0

/-- The problem in words, behind the place of the token or else the known place. -/
def message (e : ParseError) : String :=
  let place (line column : Int) := " at line " ++ toString line ++ ", column " ++ toString column
  let shownPlace := match e.token with
    | some t => place t.span.start.line t.span.start.column
    | none => if e.knownLine ≠ 0 then place e.knownLine e.knownColumn else ""
  "Parse error" ++ shownPlace ++ ": " ++ e.problem.text

end ParseError

/-- Why a text has no syntax tree. -/
inductive SyntaxError
  /-- It has no tokens. -/
  | lexical (e : LexError)
  /-- Its tokens do not follow the grammar. -/
  | grammatical (e : ParseError)
  deriving DecidableEq, Repr, Inhabited

/-- The reason in words. -/
def SyntaxError.message : SyntaxError → String
  | lexical e => e.message
  | grammatical e => e.message

end StarlarkLint
