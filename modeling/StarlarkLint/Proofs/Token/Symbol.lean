import StarlarkLint.Token.Lexeme

/-!
# Symbols

A symbol is a token apart from its place.

## Main definitions

* `Symbol`, `Token.symbol`, `Lexeme.symbol` — symbols, and those of a token and of a lexeme.
-/

namespace StarlarkLint

/-- What a token says apart from its place. -/
structure Symbol where
  /-- What it is. -/
  kind : TokenKind
  /-- The text it stands for. -/
  value : String
  deriving DecidableEq, Repr

/-- The token apart from its place. -/
def Token.symbol (t : Token) : Symbol := ⟨t.kind, t.value⟩

@[simp] theorem Token.kind_symbol (t : Token) : t.symbol.kind = t.kind := rfl

@[simp] theorem Token.value_symbol (t : Token) : t.symbol.value = t.value := rfl

/-- The symbol of a lexeme. -/
def Lexeme.symbol (l : Lexeme) : Symbol := ⟨l.kind, l.value⟩

@[simp] theorem Lexeme.kind_symbol (l : Lexeme) : l.symbol.kind = l.kind := rfl

@[simp] theorem Lexeme.value_symbol (l : Lexeme) : l.symbol.value = l.value := rfl

end StarlarkLint
