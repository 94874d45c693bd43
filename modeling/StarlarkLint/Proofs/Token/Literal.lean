import StarlarkLint.Layout.Literal
import StarlarkLint.Proofs.Position
import StarlarkLint.Proofs.Token.Scan

/-!
# Written strings are read back

A character is written so that reading it gives the character and stops right behind it, and so that
it starts with no quote.  The content of a written literal therefore ends where its closing quote
stands, and the literal opens no longer one unless it is empty and a quote follows it.  What follows
it makes no other difference.

## Main results

* `Literal.ordinary_written` — the content of a written literal is read back.
* `Literal.printable_written` — a literal holds no control character.
* `Lexeme.heads_written` — a written literal is one string.
* `Scan.ofText_written` — it is the first token of every text that starts with it.
-/

namespace StarlarkLint

namespace Literal

/-- Two hexadecimal digits stand for the control character they were made of. -/
theorem hex_control {n : Nat} (h : n < 0x20 ∨ n = 0x7f) : ∃ high low a b,
    (Text.hex 2 n).toList = [high, low] ∧ hexDigit? high = some a ∧ hexDigit? low = some b ∧
      a * 16 + b = n := by
  have hall : ∀ n < 128, n < 0x20 ∨ n = 0x7f →
      (Text.hex 2 n).toList = [Nat.digitChar (n / 16), Nat.digitChar (n % 16)] ∧
        hexDigit? (Nat.digitChar (n / 16)) = some (n / 16) ∧
        hexDigit? (Nat.digitChar (n % 16)) = some (n % 16) := by decide +kernel
  obtain ⟨htext, hhigh, hlow⟩ := hall n (by omega) h
  exact ⟨_, _, _, _, htext, hhigh, hlow, by omega⟩

/-- A character is written as an escape that stands for it, or as itself. -/
theorem escaped_cases (c : Char) :
    (∃ tail, (escaped c).toList = '\\' :: tail ∧
      ∀ more, Escape.read (tail ++ more) = .ok ([c], tail.length)) ∨
    (escaped c).toList = [c] ∧ c ≠ '\\' ∧ c ≠ '"' ∧ c ≠ '\n' := by
  unfold escaped
  split
  case h_10 hslash hquote hfeed _ _ _ _ _ _ =>
    split
    · next hcontrol =>
      obtain ⟨high, low, a, b, htext, hhigh, hlow, hvalue⟩ := hex_control hcontrol
      refine .inl ⟨['x', high, low], by simp [htext], fun more => ?_⟩
      have hoctal : octalDigit? 'x' = none := by decide
      simp [Escape.read, namedEscape?, hoctal, hhigh, hlow, hvalue]
    · exact .inr ⟨by simp, hslash, hquote, hfeed⟩
  all_goals exact .inl ⟨[_], rfl, fun more => rfl⟩

/-- What a character is written as is read as that character. -/
theorem ordinary_escaped (c : Char) (more : List Char) :
    ordinary '"' false ((escaped c).toList ++ more) =
      prepend [c] (escaped c).toList.length (ordinary '"' false more) := by
  rcases escaped_cases c with ⟨tail, htext, hread⟩ | ⟨htext, hslash, hquote, hfeed⟩
  · rw [htext, List.cons_append, ordinary]
    simp [closing?, hread]
  · rw [htext, List.singleton_append, ordinary]
    simp [closing?, hslash, hfeed, Ne.symm hquote]

/-- The content of a written literal is read back up to its closing quote. -/
theorem ordinary_written (cs rest : List Char) :
    ordinary '"' false (cs.flatMap (fun c => (escaped c).toList) ++ '"' :: rest) =
      closed cs ((cs.flatMap fun c => (escaped c).toList).length + 1) := by
  induction cs with
  | nil =>
    rw [List.flatMap_nil, List.nil_append, ordinary]
    simp [closing?]
  | cons c cs ih =>
    rw [List.flatMap_cons, List.append_assoc, ordinary_escaped, ih, prepend, List.singleton_append,
      List.length_append, Nat.add_assoc]

/-- A written literal opens no longer one, unless a quote follows the empty one. -/
theorem read_written (cs : List Char) {rest : List Char}
    (hrest : cs = [] → rest.head? ≠ some '"') :
    read ordinary '"' (cs.flatMap (fun c => (escaped c).toList) ++ '"' :: rest) =
      closed cs ((cs.flatMap fun c => (escaped c).toList).length + 1) := by
  have hopen : ['"', '"'].isPrefixOf
      (cs.flatMap (fun c => (escaped c).toList) ++ '"' :: rest) = false := by
    cases cs with
    | nil =>
      cases rest with
      | nil => rfl
      | cons d rest =>
        have hd : d ≠ '"' := by
          rintro rfl
          exact hrest rfl rfl
        simp [List.isPrefixOf, Ne.symm hd]
    | cons c cs =>
      rcases escaped_cases c with ⟨tail, htext, -⟩ | ⟨htext, -, hquote, -⟩
      · simp [List.isPrefixOf, htext]
      · simp [List.isPrefixOf, htext, Ne.symm hquote]
  rw [read, hopen, if_neg Bool.false_ne_true, ordinary_written]

/-- The characters of a literal: those of its content between two quotes. -/
theorem toList_written (value : String) : (written value).toList =
    '"' :: (value.toList.flatMap (fun c => (escaped c).toList) ++ ['"']) := by
  simp [written, List.flatMap_map]

/-! ### Control characters -/

/-- A digit is no control character. -/
theorem printable_of_hexDigit? {c : Char} {n : Nat} (h : hexDigit? c = some n) :
    0x20 ≤ c.toNat ∧ c.toNat ≠ 0x7f := by
  have hbetween : ∀ {a b : Char}, 0x20 ≤ a.toNat → b.toNat < 0x7f → a ≤ c ∧ c ≤ b →
      0x20 ≤ c.toNat ∧ c.toNat ≠ 0x7f := by
    rintro a b ha hb ⟨hac, hcb⟩
    have hac' : a.toNat ≤ c.toNat := hac
    have hcb' : c.toNat ≤ b.toNat := hcb
    omega
  unfold hexDigit? at h
  split at h
  · next hdigit => exact hbetween (by decide) (by decide) hdigit
  · split at h
    · next hlower => exact hbetween (by decide) (by decide) hlower
    · split at h
      · next hupper => exact hbetween (by decide) (by decide) hupper
      · cases h

/-- Control characters are written with a backslash and letters and digits. -/
theorem printable_escaped (c : Char) :
    ∀ d ∈ (escaped c).toList, 0x20 ≤ d.toNat ∧ d.toNat ≠ 0x7f := by
  unfold escaped
  split
  case h_10 =>
    split
    · next hcontrol =>
      obtain ⟨high, low, a, b, htext, hhigh, hlow, -⟩ := hex_control hcontrol
      rw [String.toList_append, htext, List.forall_mem_append]
      refine ⟨by simp, List.forall_mem_cons.mpr ⟨printable_of_hexDigit? hhigh, ?_⟩⟩
      simpa using printable_of_hexDigit? hlow
    · next hcontrol =>
      rw [not_or, Nat.not_lt] at hcontrol
      simpa using hcontrol
  all_goals simp

/-- **No control character stands in a literal**, whatever the string holds. -/
theorem printable_written (value : String) :
    ∀ c ∈ (written value).toList, 0x20 ≤ c.toNat ∧ c.toNat ≠ 0x7f := by
  rw [toList_written, List.forall_mem_cons, List.forall_mem_append]
  refine ⟨by decide, fun d hd => ?_, by simp⟩
  obtain ⟨c, -, hd⟩ := List.mem_flatMap.mp hd
  exact printable_escaped c d hd

end Literal

/-- **A written literal is one string**, in front of any text but for a quote behind the empty
one. -/
theorem Lexeme.heads_written (value : String) {rest : List Char}
    (hrest : value = "" → rest.head? ≠ some '"') :
    Heads (Literal.written value).toList ⟨.string, value⟩ rest := by
  let body := value.toList.flatMap fun c => (Literal.escaped c).toList
  have htext : (Literal.written value).toList = '"' :: (body ++ ['"']) :=
    Literal.toList_written value
  have hread : Lexeme.read '"' (body ++ ['"'] ++ rest) =
      ofLiteral 0 (.closed value.toList (body.length + 1)) := by
    rw [List.append_assoc, List.singleton_append,
      ← Literal.read_written value.toList fun hnil => hrest (String.toList_eq_nil_iff.mp hnil)]
    rfl
  refine ⟨'"', body ++ ['"'], _, htext, hread, ?_, ?_⟩
  · simp [symbol]
  · rw [htext]
    simp

/-- **A written literal is the first token of every text that starts with it**, unless a quote
follows the empty one.  The token has the string for its value and ends right behind the closing
quote, where reading goes on; and the literal holds no control character. -/
theorem Scan.ofText_written (value rest : String)
    (h : value = "" → rest.toList.head? ≠ some '"') :
    (∃ next : Cursor, next.rest = rest.toList ∧
      next.position = ⟨1, 1 + (Literal.written value).length⟩ ∧
      ofText (Literal.written value ++ rest) =
        (go next 0).cons ⟨.string, value, ⟨⟨1, 1⟩, next.position⟩⟩) ∧
    ∀ c ∈ (Literal.written value).toList, 0x20 ≤ c.toNat ∧ c.toNat ≠ 0x7f := by
  have hprintable := Literal.printable_written value
  let start : Cursor := .start (Literal.written value ++ rest)
  have hstart : start.rest = (Literal.written value).toList ++ rest.toList := String.toList_append
  have hline : '\n' ∉ (Literal.written value).toList := fun hmem =>
    absurd (hprintable _ hmem).1 (by decide)
  refine ⟨⟨start.advance (Literal.written value).toList.length, ?_, ?_, ?_⟩, hprintable⟩
  · rw [Cursor.rest_advance, hstart, List.drop_left]
  · rw [Cursor.position_advance, hstart, List.take_left, Position.through_of_notMem hline]
    rfl
  · exact go_heads (Lexeme.heads_written value h) rfl hstart

/-- A quote that is not closed follows: another kind of quote behind the empty literal, or the same
behind one whose last character could go on with the escape in front of it. -/
theorem Scan.ofText_written_quote :
    ("" = "" → "'".toList.head? ≠ some '"') ∧ ("\x01f" = "" → "\"".toList.head? ≠ some '"') ∧
      (∃ next : Cursor, next.rest = ['\''] ∧
        ofText "\"\"'" = (go next 0).cons ⟨.string, "", ⟨⟨1, 1⟩, ⟨1, 3⟩⟩⟩) ∧
      ∃ next : Cursor, next.rest = ['"'] ∧
        ofText "\"\\x01f\"\"" = (go next 0).cons ⟨.string, "\x01f", ⟨⟨1, 1⟩, ⟨1, 8⟩⟩⟩ := by
  have hother : "" = "" → "'".toList.head? ≠ some '"' := fun _ => by decide
  have hsame : "\x01f" = "" → "\"".toList.head? ≠ some '"' := fun hempty => by simp at hempty
  refine ⟨hother, hsame, ?_, ?_⟩
  · obtain ⟨⟨next, hrest, hposition, htext⟩, -⟩ := ofText_written "" "'" hother
    have hstop : next.position = ⟨1, 3⟩ := hposition
    rw [hstop] at htext
    exact ⟨next, hrest, htext⟩
  · obtain ⟨⟨next, hrest, hposition, htext⟩, -⟩ := ofText_written "\x01f" "\"" hsame
    have hwritten : Literal.written "\x01f" = "\"\\x01f\"" := rfl
    have hstop : next.position = ⟨1, 8⟩ := by
      rw [hposition, hwritten]
      decide
    rw [hstop, hwritten] at htext
    exact ⟨next, hrest, htext⟩

end StarlarkLint
