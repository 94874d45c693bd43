import Mathlib.Data.List.Induction
import StarlarkLint.Token.Cursor

/-!
# Places as counts

The place behind a text is found by going through it character by character, and it is found by
counting: the line is one more than the line feeds, the column one more than the characters behind
the last of them.  Going on always leads to a later place, so that a place tells how far one has
come.

## Main definitions

* `Position.through`, `Position.behind` — the place behind a text, by going through it and by
  counting.
* `Span.cut`, `Span.textIn` — the part of a text that stands in a span.

## Main results

* `Position.through_origin` — both ways lead to the same place.
* `Position.lt_through` — every text leads to a later place.
* `Span.textIn_eq` — what stands between two places of a text.
-/

namespace StarlarkLint

namespace Position

/-- The place behind a text that starts at `p`. -/
def through (p : Position) (cs : List Char) : Position := cs.foldl after p

@[simp] theorem through_cons (p : Position) (c : Char) (cs : List Char) :
    p.through (c :: cs) = (p.after c).through cs := rfl

theorem through_append (p : Position) (cs ds : List Char) :
    p.through (cs ++ ds) = (p.through cs).through ds := by
  unfold through
  rw [List.foldl_append]

/-- On one line, every character leads one column further. -/
theorem through_of_notMem {p : Position} {cs : List Char} (h : '\n' ∉ cs) :
    p.through cs = ⟨p.line, p.column + cs.length⟩ := by
  induction cs generalizing p with
  | nil => simp [through]
  | cons c cs ih =>
    rw [List.mem_cons, not_or] at h
    rw [through_cons, ih h.2, after_of_ne (Ne.symm h.1), List.length_cons, Int.natCast_succ,
      Int.add_comm cs.length 1, ← Int.add_assoc]

/-- The place behind a text that starts at the origin, by counting: one line for each line feed, and
one column for each character behind the last of them. -/
def behind (cs : List Char) : Position :=
  ⟨cs.count '\n' + 1, (cs.reverse.takeWhile (· ≠ '\n')).length + 1⟩

/-- One more character leads to the place behind it. -/
theorem behind_append_singleton (cs : List Char) (c : Char) :
    behind (cs ++ [c]) = (behind cs).after c := by
  unfold behind
  by_cases hc : c = '\n'
  · subst hc
    simp [after, List.count_append]
  · rw [after_of_ne hc]
    simp [List.count_append, hc]

/-- **Going through a text and counting lead to the same place.** -/
theorem through_origin (cs : List Char) : origin.through cs = behind cs := by
  induction cs using List.reverseRecOn with
  | nil => rfl
  | append_singleton cs c ih =>
    rw [through_append, ih, behind_append_singleton]
    rfl

theorem through_behind (cs ds : List Char) : (behind cs).through ds = behind (cs ++ ds) := by
  rw [← through_origin, ← through_append, through_origin]

/-! ### Order -/

theorem lt_def {p q : Position} :
    p < q ↔ p.line < q.line ∨ p.line = q.line ∧ p.column < q.column := Iff.rfl

theorem le_def {p q : Position} :
    p ≤ q ↔ p.line < q.line ∨ p.line = q.line ∧ p.column ≤ q.column := Iff.rfl

theorem le_refl (p : Position) : p ≤ p := .inr ⟨rfl, Int.le_refl _⟩

theorem not_lt {p q : Position} : ¬ p < q ↔ q ≤ p := by
  rw [lt_def, le_def]
  omega

theorem le_of_lt {p q : Position} (h : p < q) : p ≤ q := by
  rw [lt_def] at h
  rw [le_def]
  omega

theorem lt_of_lt_of_le {p q r : Position} (h : p < q) (h' : q ≤ r) : p < r := by
  rw [lt_def] at h
  rw [le_def] at h'
  rw [lt_def]
  omega

theorem lt_of_le_of_lt {p q r : Position} (h : p ≤ q) (h' : q < r) : p < r := by
  rw [le_def] at h
  rw [lt_def] at h'
  rw [lt_def]
  omega

theorem le_trans {p q r : Position} (h : p ≤ q) (h' : q ≤ r) : p ≤ r := by
  rw [le_def] at h h'
  rw [le_def]
  omega

/-- A character leads to a later place. -/
theorem lt_after (p : Position) (c : Char) : p < p.after c := by
  rw [lt_def]
  unfold after
  split
  · exact .inl (Int.lt_succ _)
  · exact .inr ⟨rfl, Int.lt_succ _⟩

theorem le_through (p : Position) (cs : List Char) : p ≤ p.through cs := by
  induction cs generalizing p with
  | nil => exact le_refl p
  | cons c cs ih => exact le_of_lt (lt_of_lt_of_le (lt_after p c) (ih _))

/-- **A text that is not empty leads to a later place.** -/
theorem lt_through (p : Position) {cs : List Char} (h : cs ≠ []) : p < p.through cs := by
  cases cs with
  | nil => exact absurd rfl h
  | cons c cs => exact lt_of_lt_of_le (lt_after p c) (le_through _ cs)

end Position

/-- Going on in a text leads to the place behind what was passed. -/
theorem Cursor.position_advance (n : Nat) (cursor : Cursor) :
    (cursor.advance n).position = cursor.position.through (cursor.rest.take n) := by
  induction n generalizing cursor with
  | zero => rfl
  | succ n ih =>
    obtain ⟨_ | ⟨c, cs⟩, offset, position⟩ := cursor
    · -- at the end of the text the place stays
      rfl
    · rw [advance, ih]
      rfl

/-! ### What stands in a span -/

namespace Span

/-- The characters of a text that stand in a span, given the place of the first character. -/
def cut (s : Span) : Position → List Char → List Char
  | _, [] => []
  | p, c :: cs =>
    if s.start ≤ p ∧ p < s.stop then c :: s.cut (p.after c) cs else s.cut (p.after c) cs

/-- The part of a text that stands in a span: from its first place on, and up to its last. -/
def textIn (s : Span) (source : String) : String := String.ofList (s.cut .origin source.toList)

theorem cut_append (s : Span) (p : Position) (cs ds : List Char) :
    s.cut p (cs ++ ds) = s.cut p cs ++ s.cut (p.through cs) ds := by
  induction cs generalizing p with
  | nil => rfl
  | cons c cs ih =>
    rw [List.cons_append, cut, cut, ih, Position.through_cons]
    split <;> rfl

/-- Nothing in front of a span stands in it. -/
theorem cut_eq_nil_of_le {s : Span} {p : Position} {cs : List Char}
    (h : p.through cs ≤ s.start) : s.cut p cs = [] := by
  induction cs generalizing p with
  | nil => rfl
  | cons c cs ih =>
    have hbefore : p < s.start :=
      Position.lt_of_lt_of_le (Position.lt_through p (List.cons_ne_nil c cs)) h
    rw [Position.through_cons] at h
    have hout : ¬ (s.start ≤ p ∧ p < s.stop) := by
      rintro ⟨hin, -⟩
      exact Position.not_lt.mpr hin hbefore
    rw [cut, if_neg hout, ih h]

/-- Nothing behind a span stands in it. -/
theorem cut_eq_nil_of_ge {s : Span} {p : Position} (h : s.stop ≤ p) (cs : List Char) :
    s.cut p cs = [] := by
  induction cs generalizing p with
  | nil => rfl
  | cons c cs ih =>
    have hout : ¬ (s.start ≤ p ∧ p < s.stop) := by
      rintro ⟨-, hin⟩
      exact Position.not_lt.mpr h hin
    have hnext : s.stop ≤ p.after c :=
      Position.le_of_lt (Position.lt_of_le_of_lt h (Position.lt_after p c))
    rw [cut, if_neg hout, ih hnext]

/-- Nothing stands in a span that has ended where it starts. -/
theorem cut_eq_nil_of_stop_le {s : Span} (h : s.stop ≤ s.start) (p : Position) (cs : List Char) :
    s.cut p cs = [] := by
  induction cs generalizing p with
  | nil => rfl
  | cons c cs ih =>
    have hout : ¬ (s.start ≤ p ∧ p < s.stop) := by
      rintro ⟨hstart, hstop⟩
      exact Position.not_lt.mpr hstart (Position.lt_of_lt_of_le hstop h)
    rw [cut, if_neg hout, ih]

/-- All that lies between the ends of a span stands in it. -/
theorem cut_eq_self {s : Span} {p : Position} {cs : List Char} (hstart : s.start ≤ p)
    (hstop : p.through cs ≤ s.stop) : s.cut p cs = cs := by
  induction cs generalizing p with
  | nil => rfl
  | cons c cs ih =>
    have hbefore : p < s.stop :=
      Position.lt_of_lt_of_le (Position.lt_through p (List.cons_ne_nil c cs)) hstop
    have hin : s.start ≤ p ∧ p < s.stop := ⟨hstart, hbefore⟩
    rw [Position.through_cons] at hstop
    have hnext : s.start ≤ p.after c :=
      Position.le_of_lt (Position.lt_of_le_of_lt hstart (Position.lt_after p c))
    rw [cut, if_pos hin, ih hnext hstop]

/-- **What stands between two places of a text** is what lies between them. -/
theorem textIn_eq {s : Span} {source : String} {before text rest : List Char}
    (hsource : source.toList = before ++ (text ++ rest))
    (hstart : s.start = Position.origin.through before)
    (hstop : s.stop = Position.origin.through (before ++ text)) :
    s.textIn source = String.ofList text := by
  have hbefore : s.cut .origin before = [] := by
    apply cut_eq_nil_of_le
    rw [hstart]
    exact Position.le_refl _
  have htext : s.cut (Position.origin.through before) text = text := by
    apply cut_eq_self
    · rw [hstart]
      exact Position.le_refl _
    · rw [hstop, Position.through_append]
      exact Position.le_refl _
  have hrest : s.cut ((Position.origin.through before).through text) rest = [] := by
    apply cut_eq_nil_of_ge
    rw [hstop, Position.through_append]
    exact Position.le_refl _
  unfold textIn
  rw [hsource, cut_append, cut_append, hbefore, htext, hrest, List.nil_append, List.append_nil]

theorem textIn_eq_empty {s : Span} (h : s.stop ≤ s.start) (source : String) :
    s.textIn source = "" := by
  rw [textIn, cut_eq_nil_of_stop_le h, String.ofList_nil]

end Span

end StarlarkLint
