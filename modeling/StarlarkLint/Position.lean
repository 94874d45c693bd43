/-!
# Positions and spans

A place in a text is a line and a column, both counted from one; columns count code points.  A span
runs from its first place up to, but not including, its last.  A node that was never given a place
has the zero span.

## Main definitions

* `Position`, `Position.after` — a place, and the place behind a character.
* `Span` — a stretch of text.
-/

namespace StarlarkLint

/-- A line and a column, counted from one. -/
structure Position where
  /-- The line. -/
  line : Int := 0
  /-- The column, in code points. -/
  column : Int := 0
  deriving DecidableEq, Repr, Inhabited

namespace Position

/-- Where a text starts. -/
def origin : Position := ⟨1, 1⟩

/-- The place behind a character that stands at `p`: a line feed opens the next line. -/
def after (p : Position) (c : Char) : Position :=
  if c = '\n' then ⟨p.line + 1, 1⟩ else ⟨p.line, p.column + 1⟩

@[simp] theorem after_lineFeed (p : Position) : p.after '\n' = ⟨p.line + 1, 1⟩ := rfl

theorem after_of_ne {p : Position} {c : Char} (h : c ≠ '\n') :
    p.after c = ⟨p.line, p.column + 1⟩ := by
  simp [after, h]

/-- Places in reading order: by line, then by column. -/
def lt (p q : Position) : Prop :=
  p.line < q.line ∨ p.line = q.line ∧ p.column < q.column

instance : LT Position := ⟨lt⟩

/-- At the same place or earlier. -/
def le (p q : Position) : Prop :=
  p.line < q.line ∨ p.line = q.line ∧ p.column ≤ q.column

instance : LE Position := ⟨le⟩

instance (p q : Position) : Decidable (p < q) :=
  inferInstanceAs (Decidable (p.line < q.line ∨ p.line = q.line ∧ p.column < q.column))

instance (p q : Position) : Decidable (p ≤ q) :=
  inferInstanceAs (Decidable (p.line < q.line ∨ p.line = q.line ∧ p.column ≤ q.column))

end Position

/-- A stretch of text, its end exclusive. -/
structure Span where
  /-- Where it starts. -/
  start : Position := {}
  /-- The place behind its last character. -/
  stop : Position := {}
  deriving DecidableEq, Repr, Inhabited

end StarlarkLint
