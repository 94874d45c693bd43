import StarlarkLint.Proofs.Position
import StarlarkLint.Proofs.Token.Lookahead
import StarlarkLint.Proofs.Token.Scan

/-!
# Raw literals and ordinary ones

A raw literal takes a backslash and the character behind it as a pair, and an ordinary one takes a
whole escape.  What an escape has beyond the pair are digits, which close nothing, so that both end
at the same quotes.  A raw literal stands for the characters up to them, and an ordinary one
for the same if there is no backslash among them; it may only fail at an escape before.

## Main definitions

* `Escape.TakesDigits` — what an escape takes up.
* `Literal.Agrees` — how the outcomes of both ways of reading go together.
* `Literal.delimiter` — the quotes that open and close a literal.

## Main results

* `Escape.takesDigits` — an escape is one character and digits behind it.
* `Literal.raw_agrees_ordinary` — both ways of reading go together, from behind the opening quote.
* `Literal.raw_verbatim` — what a raw literal stands for.
* `Scan.raw_and_ordinary` — the first token of a text with the letter of raw literals in front of it
  and without.
-/

namespace StarlarkLint

/-! ### Quotes and digits -/

theorem Lexeme.isQuote_iff {c : Char} : isQuote c ↔ c = '"' ∨ c = '\'' := by
  rw [isQuote, Bool.or_eq_true, beq_iff_eq, beq_iff_eq]

theorem Lexeme.ne_backslash_of_isQuote {c : Char} (h : isQuote c) : c ≠ '\\' := by
  rintro rfl
  exact absurd h (by decide)

theorem isSome_hexDigit?_of_octalDigit? {c : Char} (h : (octalDigit? c).isSome) :
    (hexDigit? c).isSome := by
  unfold octalDigit? at h
  split at h
  · next hbounds =>
    have hnine : c ≤ '9' := Char.le_trans hbounds.2 (by decide)
    rw [hexDigit?, if_pos ⟨hbounds.1, hnine⟩]
    rfl
  · cases h

/-! ### Escapes -/

namespace Escape

/-- What an octal escape takes up are digits. -/
theorem isSome_of_mem_take_octal (limit value : Nat) (cs : List Char) :
    ∀ c ∈ cs.take (octal limit value cs).2, (octalDigit? c).isSome := by
  fun_induction octal limit value cs with
  | case1 => simp
  | case2 => simp
  | case3 value limit c cs d hd v n hmore ih =>
    rw [hmore] at ih
    rw [List.take_succ_cons]
    exact List.forall_mem_cons.mpr ⟨Option.isSome_of_eq_some hd, ih⟩
  | case4 => simp

/-- An escape that starts with a character takes up this character and digits behind it, be it
complete or not. -/
def TakesDigits (d : Char) (cs : List Char) : Prop :=
  ∃ ds rest, cs = ds ++ rest ∧ (∀ e ∈ ds, (hexDigit? e).isSome) ∧
    ((∃ content, read (d :: cs) = .ok (content, ds.length + 1)) ∨
      read (d :: cs) = .error (ds.length + 1))

/-- A hexadecimal escape has up to two digits. -/
theorem takesDigits_hex (cs : List Char) : TakesDigits 'x' cs := by
  have hoctal : octalDigit? 'x' = none := by decide
  unfold TakesDigits
  cases cs with
  | nil => exact ⟨[], [], rfl, List.forall_mem_nil _, .inr (by simp [read, namedEscape?, hoctal])⟩
  | cons high rest =>
    cases hhigh : hexDigit? high with
    | none =>
      refine ⟨[], high :: rest, rfl, List.forall_mem_nil _, .inr ?_⟩
      simp [read, namedEscape?, hoctal, hhigh]
    | some a =>
      cases rest with
      | nil =>
        refine ⟨[high], [], rfl, by simp [hhigh], .inr ?_⟩
        simp [read, namedEscape?, hoctal, hhigh]
      | cons low rest =>
        cases hlow : hexDigit? low with
        | none =>
          refine ⟨[high], low :: rest, rfl, by simp [hhigh], .inr ?_⟩
          simp [read, namedEscape?, hoctal, hhigh, hlow]
        | some b =>
          have hread := read_hex.mpr ⟨high, low, rest, a, b, rfl, hhigh, hlow, rfl, rfl⟩
          exact ⟨[high, low], rest, rfl, by simp [hhigh, hlow], .inl ⟨_, hread⟩⟩

/-- **An escape is one character and digits behind it.** -/
theorem takesDigits (d : Char) (cs : List Char) : TakesDigits d cs := by
  by_cases hx : d = 'x'
  · subst hx
    exact takesDigits_hex cs
  · unfold TakesDigits
    rw [read.eq_def]
    dsimp only
    split
    · exact ⟨[], cs, rfl, List.forall_mem_nil _, .inl ⟨_, rfl⟩⟩
    · split
      · exact ⟨[], cs, rfl, List.forall_mem_nil _, .inl ⟨_, rfl⟩⟩
      · split
        · next hoctal =>
          obtain ⟨digit, hdigit⟩ := Option.isSome_iff_exists.mp hoctal
          have hlength := snd_octal_le 2 (0 * 8 + digit) cs
          refine ⟨_, _, (List.take_append_drop (octal 2 (0 * 8 + digit) cs).2 cs).symm, ?_, ?_⟩
          · intro e he
            exact isSome_hexDigit?_of_octalDigit? (isSome_of_mem_take_octal _ _ cs e he)
          · rw [List.length_take_of_le hlength, octal, hdigit]
            exact .inl ⟨_, rfl⟩
        · exact ⟨[], cs, rfl, List.forall_mem_nil _, .inl ⟨_, rfl⟩⟩

end Escape

/-! ### From behind the opening quote -/

namespace Literal

variable {quote : Char} {triple : Bool}

theorem prepend_nil (l : Literal) : prepend [] 0 l = l := by
  cases l <;> simp [prepend]

theorem prepend_prepend (content more : List Char) (m n : ℕ) (l : Literal) :
    prepend content m (prepend more n l) = prepend (content ++ more) (m + n) l := by
  cases l <;> simp [prepend, Nat.add_assoc]

/-- What does not start with the quote does not close a literal. -/
theorem closing?_eq_none {c : Char} (h : c ≠ quote) (cs : List Char) :
    closing? quote triple (c :: cs) = none := by
  cases triple <;> simp [closing?, List.isPrefixOf, Ne.symm h]

/-- What neither ends a literal nor pairs up with another character stands for itself. -/
theorem raw_cons {c : Char} {cs : List Char} (hfeed : ¬ (c = '\n' ∧ triple = false))
    (hclosing : closing? quote triple (c :: cs) = none) (hslash : c ≠ '\\') :
    raw quote triple (c :: cs) = prepend [c] 1 (raw quote triple cs) := by
  rw [raw.eq_def]
  dsimp only
  rw [if_neg hfeed, hclosing]
  dsimp only
  split
  · exact absurd rfl hslash
  · exact absurd rfl hslash
  · rfl

/-- A backslash and the character behind it are a pair. -/
theorem raw_pair (hquote : quote ≠ '\\') (d : Char) (cs : List Char) :
    raw quote triple ('\\' :: d :: cs) = prepend ['\\', d] 2 (raw quote triple cs) := by
  rw [raw.eq_def]
  dsimp only
  rw [if_neg fun hfeed => absurd hfeed.1 (by decide), closing?_eq_none (Ne.symm hquote)]
  rfl

/-- A backslash at the end of the text is alone. -/
theorem raw_backslash (hquote : quote ≠ '\\') : raw quote triple ['\\'] = unterminated 1 := by
  rw [raw.eq_def]
  dsimp only
  rw [if_neg fun hfeed => absurd hfeed.1 (by decide), closing?_eq_none (Ne.symm hquote)]
  rfl

/-- No digit ends a line or a literal, or starts an escape. -/
theorem ne_of_hexDigit? (hquote : Lexeme.isQuote quote) {c : Char} (h : (hexDigit? c).isSome) :
    c ≠ '\n' ∧ c ≠ '\\' ∧ c ≠ quote := by
  have hother : ∀ {d}, hexDigit? d = none → c ≠ d := by
    rintro d hd rfl
    rw [hd] at h
    cases h
  rcases Lexeme.isQuote_iff.mp hquote with rfl | rfl <;>
    exact ⟨hother (by decide), hother (by decide), hother (by decide)⟩

/-- Digits stand for themselves. -/
theorem raw_digits (hquote : Lexeme.isQuote quote) {ds : List Char}
    (h : ∀ d ∈ ds, (hexDigit? d).isSome) (cs : List Char) :
    raw quote triple (ds ++ cs) = prepend ds ds.length (raw quote triple cs) := by
  induction ds with
  | nil => exact (prepend_nil _).symm
  | cons d ds ih =>
    rw [List.forall_mem_cons] at h
    obtain ⟨hfeed, hslash, hne⟩ := ne_of_hexDigit? hquote h.1
    rw [List.cons_append, raw_cons (fun hd => hfeed hd.1) (closing?_eq_none hne _) hslash, ih h.2,
      prepend_prepend, List.length_cons, Nat.add_comm ds.length, List.singleton_append]

/-- A backslash, the character behind it and digits behind that. -/
theorem raw_escape (hquote : Lexeme.isQuote quote) {d : Char} {ds : List Char}
    (h : ∀ d ∈ ds, (hexDigit? d).isSome) (cs : List Char) :
    raw quote triple ('\\' :: d :: (ds ++ cs)) =
      prepend ('\\' :: d :: ds) ('\\' :: d :: ds).length (raw quote triple cs) := by
  rw [raw_pair (Lexeme.ne_backslash_of_isQuote hquote), raw_digits hquote h, prepend_prepend,
    List.length_cons, List.length_cons, Nat.add_comm 2]
  rfl

/-- What closes a literal is its quote, once or three times. -/
theorem exists_of_closing? {cs : List Char} {n : ℕ} (h : closing? quote triple cs = some n) :
    n = closingLength triple ∧
      ∃ rest, cs = List.replicate (closingLength triple) quote ++ rest := by
  refine ⟨(closing?_eq_some h).1, ?_⟩
  unfold closing? at h
  cases triple with
  | true =>
    rw [if_pos rfl, Option.ite_none_right_eq_some, List.isPrefixOf_iff_prefix] at h
    obtain ⟨⟨rest, rfl⟩, -⟩ := h
    exact ⟨rest, rfl⟩
  | false =>
    rw [if_neg Bool.false_ne_true, Option.ite_none_right_eq_some, List.isPrefixOf_iff_prefix] at h
    obtain ⟨⟨rest, rfl⟩, -⟩ := h
    exact ⟨rest, rfl⟩

/-- **What a raw literal stands for** is what is in front of its closing quotes. -/
theorem raw_verbatim {cs content : List Char} {used : ℕ}
    (h : raw quote triple cs = closed content used) :
    ∃ rest, cs = content ++ (List.replicate (closingLength triple) quote ++ rest) ∧
      used = content.length + closingLength triple := by
  fun_induction raw quote triple cs generalizing content used with
  | case1 => cases h
  | case2 c cs hfeed => cases h
  | case3 c cs hfeed n hclosing =>
    cases h
    obtain ⟨rfl, rest, hrest⟩ := exists_of_closing? hclosing
    exact ⟨rest, hrest, (Nat.zero_add _).symm⟩
  | case4 hfeed hclosing => cases h
  | case5 d cs hfeed hclosing ih =>
    obtain ⟨more, m, hmore, rfl, rfl⟩ := prepend_eq_closed.mp h
    obtain ⟨rest, rfl, rfl⟩ := ih hmore
    exact ⟨rest, rfl, by simp; omega⟩
  | case6 c cs hlast hpair hfeed hclosing ih =>
    obtain ⟨more, m, hmore, rfl, rfl⟩ := prepend_eq_closed.mp h
    obtain ⟨rest, rfl, rfl⟩ := ih hmore
    exact ⟨rest, rfl, by simp; omega⟩

/-- A raw literal has no escapes to fail at. -/
theorem raw_ne_missingHexDigit (cs : List Char) (n : ℕ) :
    raw quote triple cs ≠ missingHexDigit n := by
  have hprepend : ∀ {l : Literal} {content m}, (∀ n, l ≠ missingHexDigit n) →
      ∀ n, prepend content m l ≠ missingHexDigit n := by
    intro l content m hl n h
    cases l with
    | missingHexDigit k => exact hl k rfl
    | _ => cases h
  revert n
  fun_induction raw quote triple cs with
  | case1 => simp
  | case2 => simp
  | case3 => simp
  | case4 => simp
  | case5 d cs hfeed hclosing ih => exact hprepend ih
  | case6 c cs hlast hpair hfeed hclosing ih => exact hprepend ih

/-- How the outcome of reading a literal raw goes together with that of reading it with escapes,
when the given number of characters stands in front of the content: both end at the same place,
with the same content if the first has no backslash in it, or the second fails inside the
content. -/
inductive Agrees (before : ℕ) : Literal → Literal → Prop
  /-- Both are closed. -/
  | closed {content content' : List Char} {used : ℕ} (h : '\\' ∉ content → content' = content) :
      Agrees before (.closed content used) (.closed content' used)
  /-- Neither is closed. -/
  | unterminated {used : ℕ} : Agrees before (.unterminated used) (.unterminated used)
  /-- The second fails in front of the closing quotes. -/
  | fails {content : List Char} {used n : ℕ} (h : n ≤ before + content.length) :
      Agrees before (.closed content used) (.missingHexDigit n)
  /-- The second fails, and the first is not closed. -/
  | failsOpen {used n : ℕ} : Agrees before (.unterminated used) (.missingHexDigit n)

namespace Agrees

variable {before : ℕ} {l l' : Literal}

/-- The same number of characters in front of both. -/
theorem prepend {content content' : List Char} (h : Agrees before l l')
    (hcontent : '\\' ∉ content → content' = content) :
    Agrees before (prepend content content.length l) (prepend content' content.length l') := by
  cases h with
  | closed h =>
    refine .closed fun hslash => ?_
    rw [List.mem_append, not_or] at hslash
    rw [hcontent hslash.1, h hslash.2]
  | unterminated => exact .unterminated
  | fails h =>
    refine .fails ?_
    rw [List.length_append]
    omega
  | failsOpen => exact .failsOpen

/-- More in front of the content. -/
theorem shift (h : Agrees before l l') (n : ℕ) :
    Agrees (n + before) (Literal.prepend [] n l) (Literal.prepend [] n l') := by
  cases h with
  | closed h => exact .closed h
  | unterminated => exact .unterminated
  | fails h =>
    refine .fails ?_
    rw [List.nil_append]
    omega
  | failsOpen => exact .failsOpen

/-- A failure inside what stands in front. -/
theorem of_prepend {content : List Char} {n : ℕ} (hl : ∀ n, l ≠ missingHexDigit n)
    (hn : n ≤ before + content.length) :
    Agrees before (Literal.prepend content content.length l) (missingHexDigit n) := by
  cases l with
  | closed more used =>
    refine .fails ?_
    rw [List.length_append]
    omega
  | unterminated used => exact .failsOpen
  | missingHexDigit m => exact absurd rfl (hl m)

end Agrees

/-- **Both ways of reading go together.** -/
theorem raw_agrees_ordinary (hquote : Lexeme.isQuote quote) (cs : List Char) :
    Agrees 0 (raw quote triple cs) (ordinary quote triple cs) := by
  fun_induction ordinary quote triple cs with
  | case1 =>
    rw [raw]
    exact .unterminated
  | case2 c cs hfeed =>
    rw [raw.eq_def]
    dsimp only
    rw [if_pos hfeed]
    exact .unterminated
  | case3 c cs hfeed n hclosing =>
    rw [raw.eq_def]
    dsimp only
    rw [if_neg hfeed, hclosing]
    exact .closed fun _ => rfl
  | case4 cs n hescape hfeed hclosing =>
    cases cs with
    | nil => cases hescape
    | cons d cs =>
      obtain ⟨ds, rest, rfl, hds, ⟨content, hread⟩ | hread⟩ := Escape.takesDigits d cs
      · cases hread.symm.trans hescape
      · cases hread.symm.trans hescape
        rw [raw_escape hquote hds]
        exact .of_prepend (raw_ne_missingHexDigit rest) (by simp)
  | case5 cs content n hescape hfeed hclosing ih =>
    cases cs with
    | nil =>
      cases hescape
      rw [raw_backslash (Lexeme.ne_backslash_of_isQuote hquote), List.drop_nil, ordinary]
      exact .unterminated
    | cons d cs =>
      obtain ⟨ds, rest, rfl, hds, ⟨content', hread⟩ | hread⟩ := Escape.takesDigits d cs
      · cases hread.symm.trans hescape
        rw [raw_escape hquote hds]
        rw [List.drop_succ_cons, List.drop_left] at ih ⊢
        exact ih.prepend fun hnone => absurd List.mem_cons_self hnone
      · cases hread.symm.trans hescape
  | case6 c cs hfeed hclosing hne ih =>
    rw [raw_cons hfeed hclosing hne]
    exact ih.prepend fun _ => rfl

/-! ### From the opening quote on -/

/-- The quotes that open and close a literal, given its first quote and what follows that. -/
def delimiter (quote : Char) (cs : List Char) : List Char :=
  if [quote, quote].isPrefixOf cs then [quote, quote, quote] else [quote]

theorem delimiter_length_pos (quote : Char) (cs : List Char) :
    0 < (delimiter quote cs).length := by
  unfold delimiter
  split <;> exact Nat.succ_pos _

/-- Both ways of reading go together from the opening quote on. -/
theorem read_agrees (hquote : Lexeme.isQuote quote) (cs : List Char) :
    Agrees ((delimiter quote cs).length - 1) (read raw quote cs) (read ordinary quote cs) := by
  unfold delimiter read
  split
  · exact (raw_agrees_ordinary hquote (cs.drop 2)).shift 2
  · exact raw_agrees_ordinary hquote cs

/-- **What a raw literal stands for** is what stands between its delimiters. -/
theorem read_verbatim {cs content : List Char} {used : ℕ}
    (h : read raw quote cs = closed content used) :
    ∃ rest, quote :: cs = delimiter quote cs ++ (content ++ (delimiter quote cs ++ rest)) ∧
      (quote :: cs).take (used + 1) = delimiter quote cs ++ (content ++ delimiter quote cs) := by
  suffices hlength : ∃ rest,
      quote :: cs = delimiter quote cs ++ (content ++ (delimiter quote cs ++ rest)) ∧
        used + 1 = (delimiter quote cs ++ (content ++ delimiter quote cs)).length by
    obtain ⟨rest, hwhole, hused⟩ := hlength
    refine ⟨rest, hwhole, ?_⟩
    rw [hwhole, hused, ← List.append_assoc content, ← List.append_assoc (delimiter quote cs) _ rest]
    exact List.take_left
  unfold delimiter
  unfold read at h
  by_cases hopen : [quote, quote].isPrefixOf cs
  · rw [if_pos hopen] at h ⊢
    obtain ⟨behind, rfl⟩ := List.isPrefixOf_iff_prefix.mp hopen
    obtain ⟨more, m, hmore, rfl, rfl⟩ := prepend_eq_closed.mp h
    obtain ⟨rest, hrest, rfl⟩ := raw_verbatim hmore
    refine ⟨rest, congrArg (quote :: quote :: quote :: ·) hrest, ?_⟩
    simp [closingLength]
    omega
  · rw [if_neg hopen] at h ⊢
    obtain ⟨rest, hrest, rfl⟩ := raw_verbatim h
    refine ⟨rest, congrArg (quote :: ·) hrest, ?_⟩
    simp [closingLength]

end Literal

/-! ### From the beginning of a text -/

namespace Lexeme

variable {letter quote : Char}

/-- A quote starts an ordinary literal. -/
theorem read_ordinary (hquote : isQuote quote) (cs : List Char) :
    read quote cs = ofLiteral 0 (Literal.read Literal.ordinary quote cs) := by
  unfold read
  rw [if_pos hquote]
  rcases isQuote_iff.mp hquote with rfl | rfl <;> rfl

/-- The letter in front of a quote starts a raw literal. -/
theorem read_raw (hletter : letter = 'r' ∨ letter = 'R') (hquote : isQuote quote)
    (cs : List Char) :
    read letter (quote :: cs) = ofLiteral 1 (Literal.read Literal.raw quote cs) := by
  have hraw : rawQuote? letter (quote :: cs) = some (quote, cs) := if_pos ⟨hletter, hquote⟩
  unfold read
  rw [hraw]
  rcases hletter with rfl | rfl <;> rfl

end Lexeme

theorem Position.through_take_le (p : Position) (n : ℕ) (cs : List Char) :
    p.through (cs.take n) ≤ p.through cs := by
  have hwhole : p.through cs = (p.through (cs.take n)).through (cs.drop n) := by
    rw [← through_append, List.take_append_drop]
  rw [hwhole]
  exact le_through _ _

namespace Scan

variable {c : Char} {cs : List Char}

/-- A fault is where reading ends. -/
theorem go_error {cursor : Cursor} {fault : LexFault} (depth : ℕ)
    (h : cursor.skipBlanks.rest = c :: cs) (hread : Lexeme.read c cs = .error fault) :
    (go cursor depth).tokens = [] ∧ (go cursor depth).error =
      some ⟨fault.problem, (cursor.skipBlanks.advance fault.place).position⟩ := by
  rw [go]
  split
  · next heq =>
    rw [h] at heq
    cases heq
  · next heq =>
    rw [h] at heq
    cases heq
    rw [hread]
    exact ⟨rfl, rfl⟩

/-- The scan of a text begins with a literal that was read from it, with `shift` characters in front
of its opening quote: with the token, or with the fault. -/
def BeginsWith (shift : ℕ) (text : List Char) (scan : Scan) : Literal → Prop
  | .closed content used => scan.tokens.head? = some
      ⟨.string, String.ofList content,
        ⟨.origin, Position.origin.through (text.take (shift + used + 1))⟩⟩
  | .unterminated _ => scan.tokens = [] ∧
      scan.error = some ⟨.unterminatedString, Position.origin.through (text.take shift)⟩
  | .missingHexDigit n => scan.tokens = [] ∧
      scan.error = some ⟨.invalidHexEscape, Position.origin.through (text.take (shift + n + 1))⟩

/-- What a text comes to that starts with a literal. -/
theorem beginsWith_of_ofLiteral (hblanks : Cursor.blanks (c :: cs) = 0) {shift : ℕ}
    {literal : Literal} (hread : Lexeme.read c cs = Lexeme.ofLiteral shift literal) :
    BeginsWith shift (c :: cs) (ofText (String.ofList (c :: cs))) literal := by
  have hskip : (Cursor.start (String.ofList (c :: cs))).skipBlanks = { rest := c :: cs } := by
    rw [Cursor.skipBlanks, Cursor.start, String.toList_ofList, hblanks]
    rfl
  have hrest : (Cursor.start (String.ofList (c :: cs))).skipBlanks.rest = c :: cs := by
    rw [hskip]
  cases literal with
  | closed content used =>
    have hgo := go_cons 0 hrest hread
    rw [hskip] at hgo
    show (go _ 0).tokens.head? = _
    rw [hgo, if_pos (by rfl), Cursor.position_advance]
    rfl
  | unterminated used =>
    have hgo := go_error 0 hrest hread
    rw [hskip, Cursor.position_advance] at hgo
    exact hgo
  | missingHexDigit n =>
    have hgo := go_error 0 hrest hread
    rw [hskip, Cursor.position_advance] at hgo
    exact hgo

/-- The token of a literal with a letter in front of its quote. -/
theorem BeginsWith.eq_of_letter {scan : Scan} {content : List Char} {used : ℕ} {t : Token}
    (h : BeginsWith 1 (c :: cs) scan (.closed content used)) (ht : scan.tokens.head? = some t) :
    t = ⟨.string, String.ofList content,
      ⟨.origin, Position.origin.through (c :: cs.take (used + 1))⟩⟩ := by
  rw [← List.take_succ_cons, Nat.add_comm used]
  exact Option.some.inj (ht.symm.trans h)

/-- Where the raw literal is closed, the ordinary one is, or fails in front of its closing quotes.
-/
theorem BeginsWith.of_agrees {quote : Char} {scan : Scan} {content : List Char} {used : ℕ}
    {l : Literal} (h : BeginsWith 0 (quote :: cs) scan l)
    (hread : Literal.read Literal.raw quote cs = .closed content used)
    (hagrees : Literal.Agrees ((Literal.delimiter quote cs).length - 1) (.closed content used) l) :
    let delimiter := Literal.delimiter quote cs
    (∃ u, scan.tokens.head? = some u ∧ u.kind = .string ∧
        u.span = ⟨.origin, Position.origin.through (delimiter ++ (content ++ delimiter))⟩ ∧
        ('\\' ∉ content → u.value = String.ofList content)) ∨
      scan.tokens = [] ∧ ∃ p, scan.error = some ⟨.invalidHexEscape, p⟩ ∧
        p ≤ Position.origin.through (delimiter ++ content) := by
  intro delimiter
  obtain ⟨rest, hwhole, htake⟩ := Literal.read_verbatim hread
  cases hagrees with
  | closed hsame =>
    refine .inl ⟨_, h, rfl, ?_, fun hslash => ?_⟩
    · rw [Nat.zero_add, htake]
    · rw [hsame hslash]
  | @fails _ _ n hn =>
    refine .inr ⟨h.1, _, h.2, ?_⟩
    have hlength : 0 + n + 1 ≤ (Literal.delimiter quote cs ++ content).length := by
      have hpos := Literal.delimiter_length_pos quote cs
      rw [List.length_append]
      omega
    rw [hwhole, ← List.append_assoc, List.take_append_of_le_length hlength]
    exact Position.through_take_le _ _ _

/-- **A raw literal and the same one without its letter.**  The first token of a text that starts
with a raw literal stands for what is between its delimiters; without the letter, the first token
covers the same characters, or the text fails at an escape in front of the closing delimiter.  If
the raw literal is not closed, neither is the ordinary one, unless it fails at an escape. -/
theorem raw_and_ordinary {letter quote : Char} (hletter : letter = 'r' ∨ letter = 'R')
    (hquote : Lexeme.isQuote quote) (cs : List Char) :
    let raw := ofText (String.ofList (letter :: quote :: cs))
    let ordinary := ofText (String.ofList (quote :: cs))
    let delimiter := Literal.delimiter quote cs
    (∀ t, raw.tokens.head? = some t → t.kind = .string ∧ ∃ rest,
      quote :: cs = delimiter ++ (t.value.toList ++ (delimiter ++ rest)) ∧
      t.span = ⟨.origin,
        Position.origin.through (letter :: (delimiter ++ (t.value.toList ++ delimiter)))⟩ ∧
      ((∃ u, ordinary.tokens.head? = some u ∧ u.kind = .string ∧
          u.span = ⟨.origin,
            Position.origin.through (delimiter ++ (t.value.toList ++ delimiter))⟩ ∧
          ('\\' ∉ t.value.toList → u.value = t.value)) ∨
        ordinary.tokens = [] ∧ ∃ p, ordinary.error = some ⟨.invalidHexEscape, p⟩ ∧
          p ≤ Position.origin.through (delimiter ++ t.value.toList))) ∧
    (raw.tokens = [] → (∃ p, raw.error = some ⟨.unterminatedString, p⟩) ∧ ordinary.tokens = [] ∧
      ∃ p, ordinary.error = some ⟨.unterminatedString, p⟩ ∨
        ordinary.error = some ⟨.invalidHexEscape, p⟩) := by
  intro raw ordinary delimiter
  have hblanks : Cursor.blanks (letter :: quote :: cs) = 0 := by
    rcases hletter with rfl | rfl <;> rfl
  have hblanks' : Cursor.blanks (quote :: cs) = 0 := by
    rcases Lexeme.isQuote_iff.mp hquote with rfl | rfl <;> rfl
  have hraw := beginsWith_of_ofLiteral hblanks (Lexeme.read_raw hletter hquote cs)
  have hordinary := beginsWith_of_ofLiteral hblanks' (Lexeme.read_ordinary hquote cs)
  have hagrees := Literal.read_agrees hquote cs
  cases hread : Literal.read Literal.raw quote cs with
  | closed content used =>
    rw [hread] at hraw hagrees
    refine ⟨fun t ht => ?_, fun hnil => ?_⟩
    · obtain ⟨rest, hwhole, htake⟩ := Literal.read_verbatim hread
      obtain rfl := hraw.eq_of_letter ht
      dsimp only
      rw [String.toList_ofList, htake]
      exact ⟨rfl, rest, hwhole, rfl, hordinary.of_agrees hread hagrees⟩
    · rw [BeginsWith, hnil] at hraw
      cases hraw
  | unterminated used =>
    rw [hread] at hraw hagrees
    refine ⟨fun t ht => ?_, fun hnil => ⟨⟨_, hraw.2⟩, ?_⟩⟩
    · rw [hraw.1] at ht
      cases ht
    · generalize Literal.read Literal.ordinary quote cs = l at hordinary hagrees
      cases hagrees with
      | unterminated => exact ⟨hordinary.1, _, .inl hordinary.2⟩
      | failsOpen => exact ⟨hordinary.1, _, .inr hordinary.2⟩
  | missingHexDigit n =>
    -- a raw literal has no escapes
    rw [hread] at hagrees
    cases hagrees

/-- The first token of `r"\x"` stands for the two characters between the quotes, and `"\x"` has no
token: it fails in front of its closing quote. -/
theorem raw_and_ordinary_hex :
    let raw := ofText (String.ofList ['r', '"', '\\', 'x', '"'])
    let ordinary := ofText (String.ofList ['"', '\\', 'x', '"'])
    raw.tokens.head? = some ⟨.string, "\\x", ⟨.origin, ⟨1, 6⟩⟩⟩ ∧ ordinary.tokens = [] ∧
      ∃ p, ordinary.error = some ⟨.invalidHexEscape, p⟩ ∧ p ≤ ⟨1, 4⟩ := by
  intro raw ordinary
  have hread : Literal.read Literal.raw '"' ['\\', 'x', '"'] = .closed ['\\', 'x'] 3 := by
    simp [Literal.read, Literal.raw, Literal.closing?, Literal.prepend]
  have hread' : Literal.read Literal.ordinary '"' ['\\', 'x', '"'] = .missingHexDigit 2 := by
    simp [Literal.read, Literal.ordinary, Literal.closing?, Escape.read, namedEscape?, octalDigit?,
      hexDigit?]
  have hraw : BeginsWith 1 ['r', '"', '\\', 'x', '"'] raw _ :=
    beginsWith_of_ofLiteral rfl (Lexeme.read_raw (.inl rfl) rfl _)
  have hordinary : BeginsWith 0 ['"', '\\', 'x', '"'] ordinary _ :=
    beginsWith_of_ofLiteral rfl (Lexeme.read_ordinary rfl _)
  rw [hread] at hraw
  rw [hread'] at hordinary
  obtain ⟨-, rest, -, -, ⟨u, hu, -⟩ | hfails⟩ :=
    (raw_and_ordinary (.inl rfl) rfl ['\\', 'x', '"']).1 _ hraw
  · rw [hordinary.1] at hu
    cases hu
  · exact ⟨hraw, hfails⟩

end Scan

end StarlarkLint
