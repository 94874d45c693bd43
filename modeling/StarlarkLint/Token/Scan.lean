import StarlarkLint.Token.Cursor
import StarlarkLint.Token.Lexeme

/-!
# Scanning a text

A text is read lexeme by lexeme.  A line feed is a token only outside brackets; inside them it is
passed over like a blank.  The last token marks the end of the text and takes up no characters.

## Main definitions

* `LexError` — a problem and its place.
* `Scan`, `Scan.ofText` — the tokens of a text up to its end or its first problem.
* `tokens` — the tokens of a text that has no problem.
-/

namespace StarlarkLint

/-- A problem with the text, and its place. -/
structure LexError where
  /-- What is wrong. -/
  problem : LexProblem
  /-- Where it was noticed. -/
  position : Position
  deriving DecidableEq, Repr, Inhabited

/-- A problem and its place in words. -/
def LexError.message (e : LexError) : String :=
  "Lexer error at line " ++ toString e.position.line ++ ", column " ++ toString e.position.column
    ++ ": " ++ e.problem.text

/-- The outcome of reading a text. -/
structure Scan where
  /-- The tokens, comments included, up to the end of the text or the first problem. -/
  tokens : List Token
  /-- The first problem, if there is one. -/
  error : Option LexError := none
  /-- Where reading stopped. -/
  stop : Cursor
  /-- The number of brackets that were open there. -/
  depth : Nat
  deriving Repr

namespace Scan

/-- Whether a lexeme of this kind is a token with the given number of brackets open: a line feed
counts only outside brackets. -/
def counts (depth : Nat) (kind : TokenKind) : Bool := kind != .newline || depth == 0

/-- The outcome with one more token in front. -/
def cons (token : Token) (scan : Scan) : Scan := { scan with tokens := token :: scan.tokens }

/-- Read on from a place with the given number of brackets open. -/
def go (cursor : Cursor) (depth : Nat) : Scan :=
  let here := cursor.skipBlanks
  match _hrest : here.rest with
  | [] =>
    { tokens := [{ kind := .endOfFile, value := "", span := ⟨here.position, here.position⟩ }]
      stop := here
      depth }
  | c :: cs =>
    match Lexeme.read c cs with
    | .error fault =>
      { tokens := []
        error := some ⟨fault.problem, (here.advance fault.place).position⟩
        stop := here.advance fault.reached
        depth }
    | .ok lexeme =>
      let next := here.advance lexeme.length
      -- the depth changes with the brackets alone, whatever becomes of the lexeme
      let scan := go next (lexeme.kind.depthAfter depth)
      if counts depth lexeme.kind then
        scan.cons ⟨lexeme.kind, lexeme.value, ⟨here.position, next.position⟩⟩
      else scan
termination_by cursor.rest.length
decreasing_by
  have hpos := lexeme.length_pos
  have hle := cursor.length_rest_skipBlanks_le
  have hlen : here.rest.length = cs.length + 1 := by rw [_hrest]; rfl
  have hhere : here.rest.length ≤ cursor.rest.length := hle
  rw [Cursor.rest_advance, List.length_drop]
  omega

/-- Read a text from its beginning. -/
def ofText (text : String) : Scan := go (.start text) 0

/-- The tokens without the comments. -/
def withoutComments (scan : Scan) : List Token := scan.tokens.filter (·.kind ≠ .comment)

end Scan

/-- The tokens of a text, comments left out, or its first problem. -/
def tokens (text : String) : Except LexError (List Token) :=
  let scan := Scan.ofText text
  match scan.error with
  | some e => .error e
  | none => .ok scan.withoutComments

end StarlarkLint
