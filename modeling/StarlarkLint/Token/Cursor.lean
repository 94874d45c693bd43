import StarlarkLint.Position

/-!
# Cursors

A cursor is a place in a text together with the characters from there on.

## Main definitions

* `Cursor`, `Cursor.start` — a place in a text, and its beginning.
* `Cursor.advance` — the place some characters further on.
* `Cursor.skipBlanks` — the next place that is not blank.

## Main results

* `Cursor.rest_advance`, `Cursor.advance_advance` — what lies ahead after going on.
-/

namespace StarlarkLint

/-- A place in a text. -/
structure Cursor where
  /-- The characters from the place on. -/
  rest : List Char
  /-- The number of characters before the place. -/
  offset : Nat := 0
  /-- The line and column of the place. -/
  position : Position := .origin
  deriving DecidableEq, Repr

namespace Cursor

/-- The beginning of a text. -/
def start (text : String) : Cursor := { rest := text.toList }

/-- The place `n` characters further on, or the end of the text. -/
def advance : Nat → Cursor → Cursor
  | 0, cursor => cursor
  | _ + 1, ⟨[], offset, position⟩ => ⟨[], offset, position⟩
  | n + 1, ⟨c :: cs, offset, position⟩ => advance n ⟨cs, offset + 1, position.after c⟩

@[simp] theorem advance_zero (cursor : Cursor) : cursor.advance 0 = cursor := rfl

@[simp] theorem rest_advance (n : Nat) (cursor : Cursor) :
    (cursor.advance n).rest = cursor.rest.drop n := by
  induction n generalizing cursor with
  | zero => rfl
  | succ n ih => obtain ⟨_ | _, _, _⟩ := cursor <;> simp [advance, ih]

/-- Going on twice is going on once, by the sum. -/
theorem advance_advance (m n : Nat) (cursor : Cursor) :
    (cursor.advance m).advance n = cursor.advance (m + n) := by
  induction m generalizing cursor with
  | zero => rw [Nat.zero_add, advance_zero]
  | succ m ih =>
    obtain ⟨_ | ⟨c, cs⟩, offset, position⟩ := cursor
    · -- at the end of the text there is nowhere to go
      rw [Nat.succ_add]
      cases n <;> rfl
    · rw [Nat.succ_add]
      exact ih _

/-- The number of blanks at the head of a text: spaces, tabs, carriage returns, and a backslash with
the line feed behind it.  A line feed alone is no blank. -/
def blanks : List Char → Nat
  | ' ' :: cs => blanks cs + 1
  | '\t' :: cs => blanks cs + 1
  | '\r' :: cs => blanks cs + 1
  | '\\' :: '\n' :: cs => blanks cs + 2
  | _ => 0

/-- The next place that is not blank. -/
def skipBlanks (cursor : Cursor) : Cursor := cursor.advance (blanks cursor.rest)

@[simp] theorem rest_skipBlanks (cursor : Cursor) :
    cursor.skipBlanks.rest = cursor.rest.drop (blanks cursor.rest) := rest_advance _ _

theorem length_rest_skipBlanks_le (cursor : Cursor) :
    cursor.skipBlanks.rest.length ≤ cursor.rest.length := by
  simp

end Cursor

end StarlarkLint
