import StarlarkLint.Proofs.Text.Letter
import StarlarkLint.Proofs.Token.Symbol

/-!
# What lexemes look like

Which lexeme stands at the head of a text is decided by its first character, and for signs and dots
by the second.  A word or a number ends where no character goes on with it; what may follow either
of them, or a string, is said once.

## Main definitions

* `Lexeme.signTexts` — the signs and their kinds.
* `Lexeme.Form` — the forms of lexemes, each told from the head of the text.
* `Symbol.Genuine` — what the symbols of lexemes look like.
* `IsLexeme` — a text that is a lexeme of the given kind as a whole.
* `Lexeme.Separate` — a text that goes on with no word, no number and no string in front of it.

## Main results

* `Lexeme.read_word`, `Lexeme.read_number`, `Lexeme.read_char` — what is read, by the first
  character.
* `Lexeme.read_eq_ok_iff` — what is read is told from its form.
* `Lexeme.genuine_symbol` — every lexeme that is read is genuine.
* `IsLexeme.heads` — a lexeme is read as such in front of a text that is separate from it.
-/

namespace StarlarkLint

open Text

namespace Lexeme

/-! ### Reading by the first character -/

/-- The signs and the kinds of their tokens. -/
def signTexts : List (TokenKind × String) :=
  [(.lparen, "("), (.rparen, ")"), (.lbracket, "["), (.rbracket, "]"), (.lbrace, "\x7b"),
   (.rbrace, "\x7d"), (.comma, ","), (.colon, ":"), (.semicolon, ";"), (.dot, "."), (.minus, "-"),
   (.percent, "%"), (.pipe, "|"), (.doubleStar, "**"), (.star, "*"), (.doubleSlash, "//"),
   (.slash, "/"), (.plusEquals, "+="), (.plus, "+"), (.compare, "=="), (.equals, "="),
   (.compare, "<="), (.compare, "<"), (.compare, ">="), (.compare, ">"), (.compare, "!=")]

/-- No sign is a word or a number. -/
theorem kind_not_mem_of_mem_signTexts {kind : TokenKind} {text : String}
    (h : (kind, text) ∈ signTexts) : kind ∉ [TokenKind.identifier, .keyword, .number] := by
  have hall : ∀ p ∈ signTexts, p.1 ∉ [TokenKind.identifier, .keyword, .number] := by decide
  exact hall _ h

theorem rawQuote?_eq_none {c : Char} {cs : List Char} (h : ∀ d ∈ cs.head?, isQuote d = false) :
    rawQuote? c cs = none := by
  cases cs with
  | nil => rfl
  | cons d cs => simp [rawQuote?, h d rfl]

theorem rawQuote?_eq_none_of_ne {c : Char} {cs : List Char} (h : c ≠ 'r' ∧ c ≠ 'R') :
    rawQuote? c cs = none := by
  cases cs <;> simp [rawQuote?, h]

/-- The characters that `sign?` tells apart. -/
def signHeads : List Char := ['*', '/', '+', '=', '<', '>', '!']

theorem mem_of_sign? {c : Char} {cs : List Char} {l : Lexeme} (h : sign? c cs = some l) :
    c ∈ signHeads := by
  unfold sign? at h
  split at h <;> simp_all [signHeads]

theorem sign?_eq_none {c : Char} {cs : List Char} (h : c ∉ marks) : sign? c cs = none := by
  cases hsign : sign? c cs with
  | none => rfl
  | some l =>
    have hsub : ∀ c ∈ signHeads, c ∈ marks := List.all_iff_forall_prop.mp (by decide)
    exact absurd (hsub c (mem_of_sign? hsign)) h

/-- What is no mark and does not open a raw literal is a number, a word, or nothing. -/
theorem read_of_not_mem_marks {c : Char} {cs : List Char} (h : c ∉ marks)
    (hraw : rawQuote? c cs = none) : read c cs =
      if startsNumber c cs then .ok (ofNumber c (numberTail cs))
      else if isWordStart c then .ok (ofWord c (cs.takeWhile isWordPart))
      else .error { problem := .unexpectedCharacter c } := by
  have hchar : TokenKind.ofChar? c = none := by
    cases hkind : TokenKind.ofChar? c with
    | none => rfl
    | some kind =>
      unfold TokenKind.ofChar? at hkind
      split at hkind <;> first | exact absurd (by decide) h | cases hkind
  have hne : c ≠ '\n' ∧ c ≠ '#' ∧ c ≠ '!' ∧ isQuote c = false := by
    refine ⟨?_, ?_, ?_, ?_⟩
    · rintro rfl
      exact h (by decide)
    · rintro rfl
      exact h (by decide)
    · rintro rfl
      exact h (by decide)
    · rw [isQuote, Bool.or_eq_false_iff]
      refine ⟨?_, ?_⟩ <;>
        · rw [beq_eq_false_iff_ne]
          rintro rfl
          exact h (by decide)
  obtain ⟨hfeed, hhash, hbang, hquote⟩ := hne
  unfold read
  rw [if_neg hfeed, if_neg hhash, hquote, if_neg Bool.false_ne_true, hraw]
  dsimp only
  rw [sign?_eq_none h]
  dsimp only
  rw [if_neg hbang, hchar]

/-- A word is read as long as it goes on, unless it opens a raw literal. -/
theorem read_word {c : Char} {cs : List Char} (h : isWordStart c = true)
    (hraw : rawQuote? c cs = none) : read c cs = .ok (ofWord c (cs.takeWhile isWordPart)) := by
  have hmarks := not_mem_marks_of_isWordPart (isWordPart_of_isWordStart h)
  have hnumber : startsNumber c cs = false := by
    have hdot : c ≠ '.' := by
      rintro rfl
      exact hmarks (by decide)
    simp [startsNumber, isDigit_eq_false_of_isWordStart h, hdot]
  rw [read_of_not_mem_marks hmarks hraw, hnumber, if_neg Bool.false_ne_true, if_pos h]

/-- A number is read as long as it goes on. -/
theorem read_number {c : Char} {cs : List Char} (h : startsNumber c cs = true) : read c cs =
    .ok (ofNumber c (numberTail cs)) := by
  by_cases hdot : c = '.'
  · -- a dot is not mistaken for anything else before numbers are looked for
    subst hdot
    have hraw : rawQuote? '.' cs = none := rawQuote?_eq_none_of_ne (by decide)
    have hsign : sign? '.' cs = none := rfl
    unfold read
    rw [if_neg (by decide), if_neg (by decide), if_neg (by decide), hraw]
    dsimp only
    rw [hsign]
    dsimp only
    rw [if_neg (by decide), if_pos h]
  · have hdigit : isDigit c = true := by
      simpa [startsNumber, hdot] using h
    have hraw : rawQuote? c cs = none := by
      refine rawQuote?_eq_none_of_ne ⟨?_, ?_⟩ <;>
        · rintro rfl
          exact absurd hdigit (by decide)
    rw [read_of_not_mem_marks (not_mem_marks_of_isDigit hdigit) hraw, if_pos h]

/-- A sign that may be the beginning of a longer one is read with the next character in view. -/
theorem read_sign {c : Char} {cs : List Char} {l : Lexeme} (h : sign? c cs = some l) :
    read c cs = .ok l := by
  have hmem := mem_of_sign? h
  have hne : ∀ c ∈ signHeads, c ≠ '\n' ∧ c ≠ '#' ∧ isQuote c = false ∧ c ≠ 'r' ∧ c ≠ 'R' :=
    List.all_iff_forall_prop.mp (by decide)
  obtain ⟨hfeed, hhash, hquote, hraw⟩ := hne c hmem
  unfold read
  rw [if_neg hfeed, if_neg hhash, hquote, if_neg Bool.false_ne_true, rawQuote?_eq_none_of_ne hraw]
  dsimp only
  rw [h]

/-- Any other sign is a lexeme by itself, but for a dot in front of a digit. -/
theorem read_char {c : Char} {kind : TokenKind} {cs : List Char}
    (h : TokenKind.ofChar? c = some kind) (hdot : c = '.' → ∀ d ∈ cs.head?, isDigit d = false) :
    read c cs = .ok (ofSign kind c) := by
  have hmem : c ∈ "()[]{},:;.-%|".toList := by
    unfold TokenKind.ofChar? at h
    split at h <;> first | decide | cases h
  have hne : ∀ c ∈ "()[]{},:;.-%|".toList, c ≠ '\n' ∧ c ≠ '#' ∧ isQuote c = false ∧
      (c ≠ 'r' ∧ c ≠ 'R') ∧ c ∉ signHeads ∧ isDigit c = false :=
    List.all_iff_forall_prop.mp (by decide)
  obtain ⟨hfeed, hhash, hquote, hraw, hsign, hdigit⟩ := hne c hmem
  have hnone : sign? c cs = none := by
    cases hsome : sign? c cs with
    | none => rfl
    | some l => exact absurd (mem_of_sign? hsome) hsign
  have hnumber : startsNumber c cs = false := by
    rw [startsNumber, hdigit, Bool.false_or, Bool.and_eq_false_iff]
    by_cases hc : c = '.'
    · refine .inr ?_
      cases cs with
      | nil => rfl
      | cons d cs => simpa using hdot hc d rfl
    · exact .inl (by simpa using hc)
  have hbang : c ≠ '!' := by
    rintro rfl
    exact hsign (by decide)
  unfold read
  rw [if_neg hfeed, if_neg hhash, hquote, if_neg Bool.false_ne_true, rawQuote?_eq_none_of_ne hraw]
  dsimp only
  rw [hnone]
  dsimp only
  rw [if_neg hbang, hnumber, if_neg Bool.false_ne_true, h]

/-- The lexemes that may stand at the head of a text that starts with `c` and goes on with `cs`. -/
inductive Form (c : Char) (cs : List Char) : Lexeme → Prop
  /-- A line feed. -/
  | feed (hc : c = '\n') : Form c cs
      { kind := .newline, value := "\n", length := 1, length_pos := Nat.one_pos }
  /-- A comment, which goes on to the end of the line. -/
  | comment (hc : c = '#') : Form c cs
      { kind := .comment
        value := String.ofList (cs.takeWhile (· ≠ '\n'))
        length := (cs.takeWhile (· ≠ '\n')).length + 1
        length_pos := Nat.succ_pos _ }
  /-- A string. -/
  | string {l : Lexeme} (hquote : isQuote c = true)
      (h : ofLiteral 0 (Literal.read Literal.ordinary c cs) = .ok l) : Form c cs l
  /-- A raw string. -/
  | raw {quote : Char} {tail : List Char} {l : Lexeme}
      (hraw : rawQuote? c cs = some (quote, tail))
      (h : ofLiteral 1 (Literal.read Literal.raw quote tail) = .ok l) : Form c cs l
  /-- A sign that may be the beginning of a longer one. -/
  | sign {l : Lexeme} (h : sign? c cs = some l) : Form c cs l
  /-- A number. -/
  | number (h : startsNumber c cs = true) : Form c cs (ofNumber c (numberTail cs))
  /-- Any other sign. -/
  | mark {kind : TokenKind} (hkind : TokenKind.ofChar? c = some kind)
      (hnumber : startsNumber c cs = false) : Form c cs (ofSign kind c)
  /-- A word. -/
  | word (hstart : isWordStart c = true) (hraw : rawQuote? c cs = none) :
      Form c cs (ofWord c (cs.takeWhile isWordPart))

/-- What is read has one of the forms, whatever was looked for before it. -/
theorem form_of_read {c : Char} {cs : List Char} {l : Lexeme} (h : read c cs = .ok l) :
    Form c cs l := by
  unfold read at h
  split at h
  · next hfeed =>
    cases h
    exact .feed hfeed
  · split at h
    · next hhash =>
      cases h
      exact .comment hhash
    · split at h
      · next hquote => exact .string hquote h
      · split at h
        · next hraw => exact .raw hraw h
        · next hraw =>
          split at h
          · next hsign =>
            cases h
            exact .sign hsign
          · split at h
            · cases h
            · split at h
              · next hnumber =>
                cases h
                exact .number hnumber
              · next hnumber =>
                split at h
                · next hkind =>
                  cases h
                  exact .mark hkind ((Bool.not_eq_true _).mp hnumber)
                · split at h
                  · next hstart =>
                    cases h
                    exact .word hstart hraw
                  · cases h

/-- **What is read is told from its form**: no two forms get in each other's way. -/
theorem read_eq_ok_iff {c : Char} {cs : List Char} {l : Lexeme} :
    read c cs = .ok l ↔ Form c cs l := by
  refine ⟨form_of_read, fun h => ?_⟩
  cases h with
  | feed hc =>
    subst hc
    rfl
  | comment hc =>
    subst hc
    rfl
  | string hquote h =>
    have hne : c ≠ '\n' ∧ c ≠ '#' := by
      refine ⟨?_, ?_⟩ <;>
        · rintro rfl
          exact absurd hquote (by decide)
    unfold read
    rw [if_neg hne.1, if_neg hne.2, if_pos hquote]
    exact h
  | raw hraw h =>
    have hletter : c = 'r' ∨ c = 'R' := by
      by_contra hne
      rw [rawQuote?_eq_none_of_ne (not_or.mp hne)] at hraw
      cases hraw
    have hall : ∀ c ∈ ['r', 'R'], c ≠ '\n' ∧ c ≠ '#' ∧ isQuote c = false :=
      List.all_iff_forall_prop.mp (by decide)
    obtain ⟨hfeed, hhash, hquote⟩ := hall c (by simpa using hletter)
    unfold read
    rw [if_neg hfeed, if_neg hhash, hquote, if_neg Bool.false_ne_true, hraw]
    exact h
  | sign h => exact read_sign h
  | number h => exact read_number h
  | mark hkind hnumber =>
    refine read_char hkind fun hdot d hd => ?_
    subst hdot
    obtain ⟨tail, rfl⟩ := List.head?_eq_some_iff.mp hd
    have hdigits : isDigit '.' = false ∧ isDigit d = false := by
      simpa [startsNumber] using hnumber
    exact hdigits.2
  | word hstart hraw => exact read_word hstart hraw

/-! ### What every lexeme looks like -/

/-- The tail of a number does not go on beyond itself. -/
theorem numberTail_numberTail (cs : List Char) : numberTail (numberTail cs) = numberTail cs := by
  induction cs with
  | nil => rfl
  | cons c cs ih =>
    by_cases hpart : isWordPart c = true
    · have htail : ∀ cs, numberTail (c :: cs) = c :: numberTail cs := by
        intro cs
        rw [numberTail, if_pos hpart]
      rw [htail, htail, ih]
    · by_cases hdot : c = '.' ∧ cs.head?.any isDigit
      · -- the digit behind the dot is still there
        have hhead : (numberTail cs).head?.any isDigit := by
          cases cs with
          | nil => exact absurd hdot.2 (by simp)
          | cons d cs =>
            have hdigit : isDigit d = true := by simpa using hdot.2
            simp [numberTail, isWordPart_of_isDigit hdigit, hdigit]
        have htail : ∀ cs, cs.head?.any isDigit → numberTail (c :: cs) = c :: numberTail cs := by
          intro cs hcs
          rw [numberTail, if_neg hpart, if_pos ⟨hdot.1, hcs⟩]
        rw [htail cs hdot.2, htail _ hhead, ih]
      · have htail : numberTail (c :: cs) = [] := by
          rw [numberTail, if_neg hpart, if_neg hdot]
        rw [htail, numberTail]

/-- What starts a number starts the lexeme that is read from it. -/
theorem startsNumber_numberTail {c : Char} {cs : List Char} (h : startsNumber c cs = true) :
    startsNumber c (numberTail cs) = true := by
  simp only [startsNumber, Bool.or_eq_true, Bool.and_eq_true] at h ⊢
  rcases h with h | ⟨hdot, hdigit⟩
  · exact .inl h
  · refine .inr ⟨hdot, ?_⟩
    cases cs with
    | nil => simp at hdigit
    | cons d cs =>
      have hd : isDigit d = true := by simpa using hdigit
      simp [numberTail, isWordPart_of_isDigit hd, hd]

end Lexeme

open Lexeme in
/-- What the symbols of lexemes look like. -/
inductive Symbol.Genuine : Symbol → Prop
  /-- A word. -/
  | word {c : Char} {tail : List Char} (hstart : isWordStart c = true)
      (htail : ∀ d ∈ tail, isWordPart d = true) : Genuine (ofWord c tail).symbol
  /-- A number. -/
  | number {c : Char} {tail : List Char} (hstart : startsNumber c tail = true)
      (htail : numberTail tail = tail) : Genuine ⟨.number, String.ofList (c :: tail)⟩
  /-- A string, of any content. -/
  | string (value : String) : Genuine ⟨.string, value⟩
  /-- A sign. -/
  | sign {kind : TokenKind} {text : String} (h : (kind, text) ∈ signTexts) : Genuine ⟨kind, text⟩
  /-- A comment. -/
  | comment (text : String) : Genuine ⟨.comment, text⟩
  /-- A line feed. -/
  | newline : Genuine ⟨.newline, "\n"⟩

namespace Lexeme

theorem genuine_of_ofLiteral {shift : Nat} {literal : Literal} {l : Lexeme}
    (h : ofLiteral shift literal = .ok l) : l.symbol.Genuine := by
  cases literal with
  | closed content used =>
    cases h
    exact .string _
  | unterminated used => cases h
  | missingHexDigit used => cases h

theorem mem_signTexts_of_sign? {c : Char} {cs : List Char} {l : Lexeme}
    (h : sign? c cs = some l) : (l.kind, l.value) ∈ signTexts := by
  unfold sign? at h
  split at h
  case h_8 => cases h
  all_goals
    dsimp only at h
    split at h
    all_goals cases h <;> decide

theorem mem_signTexts_of_ofChar? {c : Char} {kind : TokenKind}
    (h : TokenKind.ofChar? c = some kind) : (kind, c.toString) ∈ signTexts := by
  unfold TokenKind.ofChar? at h
  split at h <;> cases h <;> decide

/-- **Every lexeme that is read is genuine.** -/
theorem genuine_symbol {c : Char} {cs : List Char} {l : Lexeme} (h : read c cs = .ok l) :
    l.symbol.Genuine := by
  cases read_eq_ok_iff.mp h with
  | feed => exact .newline
  | comment => exact .comment _
  | string _ h => exact genuine_of_ofLiteral h
  | raw _ h => exact genuine_of_ofLiteral h
  | sign h => exact .sign (mem_signTexts_of_sign? h)
  | number hnumber =>
    exact .number (startsNumber_numberTail hnumber) (numberTail_numberTail cs)
  | mark hkind => exact .sign (mem_signTexts_of_ofChar? hkind)
  | word hstart => exact .word hstart fun d hd => List.all_eq_true.mp List.all_takeWhile d hd

/-- What is neither a word nor a number, nor holds text of its own, is a sign. -/
theorem mem_signTexts_of_genuine {s : Symbol} (h : s.Genuine)
    (hkind : s.kind ∉ [TokenKind.identifier, .keyword, .number, .string, .comment, .newline]) :
    (s.kind, s.value) ∈ signTexts := by
  cases h with
  | sign hsign => exact hsign
  | word hstart htail =>
    simp only [ofWord, kind_symbol] at hkind
    split at hkind <;> simp at hkind
  | _ => simp at hkind

/-! ### Lexemes in front of a text -/

/-- The first text is read as a lexeme of the symbol when the second follows it. -/
def Heads (text : List Char) (s : Symbol) (rest : List Char) : Prop :=
  ∃ c cs l, text = c :: cs ∧ read c (cs ++ rest) = .ok l ∧ l.symbol = s ∧ l.length = text.length

/-- The text goes on with no word, no number and no string in front of it. -/
def Separate (rest : List Char) : Prop :=
  numberTail rest = [] ∧ ∀ c ∈ rest.head?, isQuote c = false

theorem Separate.isWordPart_eq_false {rest : List Char} (h : Separate rest) :
    ∀ c ∈ rest.head?, isWordPart c = false := by
  intro c hc
  by_contra hpart
  obtain ⟨cs, rfl⟩ := List.head?_eq_some_iff.mp hc
  have htail := h.1
  rw [numberTail, if_pos ((Bool.not_eq_false _).mp hpart)] at htail
  cases htail

/-- A text that starts with a mark is separate, unless the mark is a quote, or a dot in front of a
digit. -/
theorem separate_cons {c : Char} {cs : List Char} (h : c ∈ marks) (hquote : isQuote c = false)
    (hdot : c = '.' → ∀ d ∈ cs.head?, isDigit d = false) : Separate (c :: cs) := by
  refine ⟨?_, by simpa using hquote⟩
  rw [numberTail, if_neg (by simp [(mark_cases h).2.1]), if_neg]
  rintro ⟨hc, hdigit⟩
  cases cs with
  | nil => simp at hdigit
  | cons d cs => simp [hdot hc d rfl] at hdigit

theorem separate_nil : Separate [] := ⟨rfl, by simp⟩

/-- A whole word in front of a text that is separate. -/
theorem heads_word {c : Char} {tail rest : List Char} (hstart : isWordStart c = true)
    (htail : ∀ d ∈ tail, isWordPart d = true) (hrest : Separate rest) :
    Heads (c :: tail) (ofWord c tail).symbol rest := by
  have hraw : rawQuote? c (tail ++ rest) = none := by
    refine rawQuote?_eq_none fun d hd => ?_
    cases tail with
    | nil => exact hrest.2 d hd
    | cons e tail =>
      obtain rfl : e = d := by simpa using hd
      have hmarks := not_mem_marks_of_isWordPart (htail e List.mem_cons_self)
      rw [isQuote, Bool.or_eq_false_iff]
      refine ⟨?_, ?_⟩ <;>
        · rw [beq_eq_false_iff_ne]
          rintro rfl
          exact hmarks (by decide)
  have htake : (tail ++ rest).takeWhile isWordPart = tail := by
    rw [List.takeWhile_append_of_pos htail]
    cases rest with
    | nil => simp
    | cons d rest => simp [hrest.isWordPart_eq_false d rfl]
  refine ⟨c, tail, _, rfl, read_word hstart hraw, ?_, ?_⟩
  · rw [htake]
  · rw [htake]
    rfl

/-- The tail of a number ends where a separate text follows it. -/
theorem numberTail_append {tail rest : List Char} (htail : numberTail tail = tail)
    (hrest : Separate rest) : numberTail (tail ++ rest) = tail := by
  induction tail with
  | nil => exact hrest.1
  | cons c tail ih =>
    rw [List.cons_append]
    by_cases hpart : isWordPart c = true
    · rw [numberTail, if_pos hpart] at htail ⊢
      rw [ih (List.cons.inj htail).2]
    · rw [numberTail, if_neg hpart] at htail ⊢
      split at htail
      · next hdot =>
        -- the digit behind the dot belongs to the number
        have hhead : (tail ++ rest).head?.any isDigit := by
          cases tail with
          | nil => exact absurd hdot.2 (by simp)
          | cons d tail => simpa using hdot.2
        rw [if_pos ⟨hdot.1, hhead⟩, ih (List.cons.inj htail).2]
      · cases htail

/-- A whole number in front of a text that is separate. -/
theorem heads_number {c : Char} {tail rest : List Char} (hstart : startsNumber c tail = true)
    (htail : numberTail tail = tail) (hrest : Separate rest) :
    Heads (c :: tail) ⟨.number, String.ofList (c :: tail)⟩ rest := by
  have hstart' : startsNumber c (tail ++ rest) = true := by
    simp only [startsNumber, Bool.or_eq_true, Bool.and_eq_true] at hstart ⊢
    rcases hstart with hdigit | ⟨hdot, hdigit⟩
    · exact .inl hdigit
    · refine .inr ⟨hdot, ?_⟩
      cases tail with
      | nil => simp at hdigit
      | cons d tail => simpa using hdigit
  refine ⟨c, tail, _, rfl, read_number hstart', ?_, ?_⟩
  · show (⟨.number, String.ofList (c :: numberTail (tail ++ rest))⟩ : Symbol) = _
    rw [numberTail_append htail hrest]
  · show (numberTail (tail ++ rest)).length + 1 = (c :: tail).length
    rw [numberTail_append htail hrest, List.length_cons]

/-- A sign that no longer sign starts with. -/
theorem heads_char {c : Char} {kind : TokenKind} {rest : List Char}
    (h : TokenKind.ofChar? c = some kind) (hdot : c = '.' → ∀ d ∈ rest.head?, isDigit d = false) :
    Heads [c] ⟨kind, c.toString⟩ rest :=
  ⟨c, [], _, rfl, read_char h hdot, rfl, rfl⟩

theorem heads_newline (rest : List Char) : Heads ['\n'] ⟨.newline, "\n"⟩ rest :=
  ⟨'\n', [], _, rfl, rfl, rfl, rfl⟩

end Lexeme

/-! ### Texts that are lexemes -/

/-- The text is a lexeme of the kind as a whole, and stands for itself. -/
def IsLexeme (kind : TokenKind) (text : String) : Prop := Lexeme.Heads text.toList ⟨kind, text⟩ []

namespace Lexeme

/-- The text of a word or a number is one again. -/
theorem isLexeme_of_genuine {s : Symbol} {kind : TokenKind} (h : s.Genuine) (hs : s.kind = kind)
    (hkind : kind ∈ [TokenKind.identifier, .keyword, .number]) : IsLexeme kind s.value := by
  subst hs
  cases h with
  | word hstart htail => simpa [IsLexeme, ofWord, symbol] using heads_word hstart htail separate_nil
  | number hstart htail => simpa [IsLexeme] using heads_number hstart htail separate_nil
  | sign hsign => exact absurd hkind (kind_not_mem_of_mem_signTexts hsign)
  | string value => simp at hkind
  | comment text => simp at hkind
  | newline => simp at hkind

end Lexeme

namespace IsLexeme

open Lexeme

variable {kind : TokenKind} {text : String}

theorem genuine (h : IsLexeme kind text) : Symbol.Genuine ⟨kind, text⟩ := by
  obtain ⟨c, cs, l, -, hread, hsymbol, -⟩ := h
  rw [← hsymbol]
  exact genuine_symbol hread

/-- A word or number is read as such in front of a text that is separate. -/
theorem heads (h : IsLexeme kind text)
    (hkind : kind ∈ [TokenKind.identifier, .keyword, .number]) {rest : List Char}
    (hrest : Separate rest) : Heads text.toList ⟨kind, text⟩ rest := by
  generalize hs : (⟨kind, text⟩ : Symbol) = s
  have hgenuine := hs ▸ h.genuine
  obtain rfl : s.kind = kind := by rw [← hs]
  obtain rfl : s.value = text := by rw [← hs]
  cases hgenuine with
  | word hstart htail => simpa [ofWord, symbol] using heads_word hstart htail hrest
  | number hstart htail => simpa using heads_number hstart htail hrest
  | sign hsign => exact absurd hkind (kind_not_mem_of_mem_signTexts hsign)
  | string value => simp at hkind
  | comment text => simp at hkind
  | newline => simp at hkind

/-- Words and numbers start with no mark, but for numbers that start with a dot. -/
theorem head_cases (h : IsLexeme kind text)
    (hkind : kind ∈ [TokenKind.identifier, .keyword, .number]) :
    ∃ c cs, text.toList = c :: cs ∧ (c ∉ marks ∨ c = '.') := by
  generalize hs : (⟨kind, text⟩ : Symbol) = s
  have hgenuine := hs ▸ h.genuine
  obtain rfl : s.kind = kind := by rw [← hs]
  obtain rfl : s.value = text := by rw [← hs]
  cases hgenuine with
  | @word c tail hstart _ =>
    refine ⟨c, tail, by simp [ofWord, symbol], .inl ?_⟩
    exact not_mem_marks_of_isWordPart (isWordPart_of_isWordStart hstart)
  | @number c tail hstart _ =>
    refine ⟨c, tail, by simp, ?_⟩
    simp only [startsNumber, Bool.or_eq_true, Bool.and_eq_true, beq_iff_eq] at hstart
    rcases hstart with hdigit | ⟨hdot, -⟩
    · exact .inl (not_mem_marks_of_isDigit hdigit)
    · exact .inr hdot
  | sign hsign => exact absurd hkind (kind_not_mem_of_mem_signTexts hsign)
  | string value => simp at hkind
  | comment text => simp at hkind
  | newline => simp at hkind

/-- A name starts with a letter or an underscore. -/
theorem head_isWordStart (h : IsLexeme .identifier text) :
    ∃ c cs, text.toList = c :: cs ∧ isWordStart c = true := by
  generalize hs : (⟨.identifier, text⟩ : Symbol) = s
  have hgenuine := hs ▸ h.genuine
  obtain rfl : s.value = text := by rw [← hs]
  have hkind : s.kind = .identifier := by rw [← hs]
  cases hgenuine with
  | @word c tail hstart htail => exact ⟨c, tail, by simp [ofWord, symbol], hstart⟩
  | @sign kind text hsign =>
    have hnone := kind_not_mem_of_mem_signTexts hsign
    rw [show kind = TokenKind.identifier from hkind] at hnone
    simp at hnone
  | number hstart htail => cases hkind
  | string value => cases hkind
  | comment text => cases hkind
  | newline => cases hkind

end IsLexeme

end StarlarkLint
