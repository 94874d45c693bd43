import StarlarkLint.Token.Basic

/-!
# Operators

Binary operators associate to the left and bind in six levels.  The prefix `not` stands between the
second and the third of them, at the level of the comparisons; signs bind more tightly than any
binary operator.

## Main definitions

* `Operator.levels`, `Operator.atLevel` — the binary operators, loosest first.
* `Operator.binary?` — the operator that a list of tokens starts with.
-/

namespace StarlarkLint.Operator

/-- The binary operators, loosest level first. -/
def levels : List (List String) :=
  [["or"], ["and"], ["==", "!=", "<", ">", "<=", ">=", "in", "not in"], ["|"], ["+", "-"],
   ["*", "/", "//", "%"]]

/-- The number of levels. -/
abbrev levelCount : Nat := 6

/-- The operators of a level; there are none beyond the last. -/
def atLevel (level : Nat) : List String := levels.getD level []

@[simp] theorem length_levels : levels.length = levelCount := rfl

/-- The level at which the prefix `not` may stand. -/
def notLevel : Nat := 2

/-- The kinds of tokens that spell a binary operator by themselves. -/
def signKinds : List TokenKind :=
  [.compare, .plus, .minus, .star, .slash, .doubleSlash, .percent, .pipe]

/-- Whether a list of tokens starts with the keyword `in`. -/
def startsWithIn : List Token → Bool
  | t :: _ => t.kind = .keyword ∧ t.value = "in"
  | [] => false

/-- The binary operator that a token spells, with the tokens behind it in view: `not in` is
spelled by two keywords. -/
def binary? (t : Token) (rest : List Token) : Option String :=
  if t.kind = .keyword then
    if t.value = "not" then if startsWithIn rest then some "not in" else none
    else if t.value ∈ ["and", "or", "in"] then some t.value
    else none
  else if t.kind ∈ signKinds then some t.value
  else none

/-- The number of tokens that spell a binary operator. -/
def width (op : String) : Nat := if op = "not in" then 2 else 1

end StarlarkLint.Operator
