import StarlarkLint.Proofs.Token.Lexeme

/-!
# Lexemes do not look far ahead

A lexeme takes up characters that are there, and what stands far enough behind it makes no
difference to it: a literal ends with its closing quote, and everything else is told from the first
character that does not belong to it.  So a lexeme stays what it is when the text behind it is
exchanged for one that does not go on with any lexeme.

## Main definitions

* `Lexeme.Detached` — a text that goes on with no lexeme in front of it.

## Main results

* `Lexeme.length_le` — a lexeme takes up characters that are there.
* `Lexeme.read_append`, `Lexeme.Heads.exchange` — what may be exchanged behind a lexeme.
-/

namespace StarlarkLint

open Text

/-! ### Escapes -/

namespace Escape

theorem snd_octal_le (limit value : Nat) (cs : List Char) :
    (octal limit value cs).2 ≤ cs.length := by
  induction limit generalizing value cs with
  | zero => exact Nat.zero_le _
  | succ limit ih =>
    cases cs with
    | nil => exact Nat.zero_le _
    | cons c cs =>
      rw [octal]
      split
      · exact Nat.succ_le_succ (ih _ cs)
      · exact Nat.zero_le _

/-- The digits of an octal escape are told from the first character that is none. -/
theorem octal_append {limit value : Nat} {pre rest : List Char}
    (h : (octal limit value (pre ++ rest)).2 < pre.length) (rest' : List Char) :
    octal limit value (pre ++ rest') = octal limit value (pre ++ rest) := by
  induction limit generalizing value pre with
  | zero => rfl
  | succ limit ih =>
    cases pre with
    | nil => exact absurd h (Nat.not_lt_zero _)
    | cons c pre =>
      rw [List.cons_append, octal] at h
      rw [List.cons_append, List.cons_append, octal, octal]
      split
      · next d hd =>
        rw [hd] at h
        have hmore : (octal limit (value * 8 + d) (pre ++ rest)).2 < pre.length :=
          Nat.lt_of_succ_lt_succ h
        rw [ih hmore]
      · rfl

/-- A hexadecimal escape stands for the number of its two digits. -/
theorem read_hex {cs content : List Char} {n : Nat} :
    read ('x' :: cs) = .ok (content, n) ↔ ∃ high low rest a b, cs = high :: low :: rest ∧
      hexDigit? high = some a ∧ hexDigit? low = some b ∧ content = [Char.ofNat (a * 16 + b)] ∧
        n = 3 := by
  constructor
  · intro h
    have hoctal : ¬ (octalDigit? 'x').isSome := by decide
    have hnamed : namedEscape? 'x' = none := rfl
    rw [read.eq_def] at h
    dsimp only at h
    rw [hnamed] at h
    dsimp only at h
    rw [if_neg (by decide), if_neg hoctal, if_pos rfl] at h
    split at h
    · cases h
    · split at h
      · cases h
      · cases h
      · next high _ _ a low rest hhigh =>
        split at h
        · cases h
        · next b hlow =>
          cases h
          exact ⟨high, low, rest, a, b, rfl, hhigh, hlow, rfl, rfl⟩
  · rintro ⟨high, low, rest, a, b, rfl, hhigh, hlow, rfl, rfl⟩
    have hoctal : octalDigit? 'x' = none := by decide
    simp [read, namedEscape?, hoctal, hhigh, hlow]

/-- An escape takes up characters that are there. -/
theorem snd_le {cs content : List Char} {n : Nat} (h : read cs = .ok (content, n)) :
    n ≤ cs.length := by
  cases cs with
  | nil =>
    cases h
    exact Nat.le_refl 0
  | cons c cs =>
    by_cases hx : c = 'x'
    · subst hx
      obtain ⟨high, low, rest, a, b, rfl, -, -, -, rfl⟩ := read_hex.mp h
      exact Nat.le_add_left 3 _
    · have hone : 1 ≤ (c :: cs).length := Nat.succ_le_succ (Nat.zero_le _)
      rw [read.eq_def] at h
      dsimp only at h
      split at h
      · cases h
        exact hone
      · split at h
        · cases h
          exact hone
        · split at h
          · cases h
            exact snd_octal_le 3 0 (c :: cs)
          · cases h
            exact hone

/-- An escape is told from its own characters and the one behind them. -/
theorem read_append {pre rest content : List Char} {n : Nat}
    (h : read (pre ++ rest) = .ok (content, n)) (hn : n < pre.length) (rest' : List Char) :
    read (pre ++ rest') = .ok (content, n) := by
  cases pre with
  | nil => exact absurd hn (Nat.not_lt_zero _)
  | cons c pre =>
    rw [List.cons_append] at h ⊢
    by_cases hx : c = 'x'
    · subst hx
      obtain ⟨high, low, tail, a, b, heq, hhigh, hlow, rfl, rfl⟩ := read_hex.mp h
      match pre with
      | [] | [_] => exact absurd hn (Nat.not_lt_of_ge (by simp))
      | first :: second :: pre =>
        simp only [List.cons_append, List.cons.injEq] at heq
        obtain ⟨rfl, rfl, -⟩ := heq
        exact read_hex.mpr ⟨first, second, pre ++ rest', a, b, rfl, hhigh, hlow, rfl, rfl⟩
    · rw [read.eq_def] at h ⊢
      dsimp only at h ⊢
      cases hnamed : namedEscape? c with
      | some stands =>
        rw [hnamed] at h
        exact h
      | none =>
        rw [hnamed] at h
        dsimp only at h ⊢
        split at h
        · next hfeed =>
          rw [if_pos hfeed]
          exact h
        · next hfeed =>
          rw [if_neg hfeed]
          split at h
          · next hoctal =>
            rw [if_pos hoctal]
            have hdigits : (octal 3 0 (c :: pre ++ rest)).2 < (c :: pre).length := by
              cases h
              exact hn
            rw [← List.cons_append, octal_append hdigits rest']
            exact h
          · next hoctal =>
            rw [if_neg hoctal, if_neg hx]
            exact h

end Escape

/-! ### Literals -/

namespace Literal

variable {quote : Char} {triple : Bool}

/-- The number of quotes that close a literal. -/
def closingLength (triple : Bool) : Nat := if triple then 3 else 1

theorem closingLength_pos (triple : Bool) : 0 < closingLength triple := by
  cases triple <;> decide

theorem closing?_eq_some {cs : List Char} {n : Nat} (h : closing? quote triple cs = some n) :
    n = closingLength triple ∧ n ≤ cs.length := by
  unfold closing? at h
  cases triple with
  | true =>
    rw [if_pos rfl, Option.ite_none_right_eq_some, List.isPrefixOf_iff_prefix] at h
    obtain ⟨hopen, heq⟩ := h
    obtain rfl : 3 = n := Option.some.inj heq
    exact ⟨rfl, hopen.length_le⟩
  | false =>
    rw [if_neg Bool.false_ne_true, Option.ite_none_right_eq_some, List.isPrefixOf_iff_prefix] at h
    obtain ⟨hopen, heq⟩ := h
    obtain rfl : 1 = n := Option.some.inj heq
    exact ⟨rfl, hopen.length_le⟩

/-- Whether quotes close a literal depends on as many characters as close it. -/
theorem closing?_append {pre : List Char} (h : closingLength triple ≤ pre.length)
    (rest rest' : List Char) :
    closing? quote triple (pre ++ rest') = closing? quote triple (pre ++ rest) := by
  unfold closing?
  cases triple with
  | true =>
    match pre with
    | [] | [_] | [_, _] => exact absurd h (Nat.not_le_of_gt (by simp [closingLength]))
    | a :: b :: c :: pre => simp [List.isPrefixOf]
  | false =>
    match pre with
    | [] => exact absurd h (Nat.not_le_of_gt (by simp [closingLength]))
    | a :: pre => simp [List.isPrefixOf]

theorem prepend_eq_closed {content content' : List Char} {n used : Nat} {l : Literal} :
    prepend content n l = closed content' used ↔
      ∃ more m, l = closed more m ∧ content ++ more = content' ∧ n + m = used := by
  cases l with
  | closed more m => simp [prepend]
  | unterminated m => simp [prepend]
  | missingHexDigit m => simp [prepend]

/-- A text that is long enough to close a literal starts with a character. -/
theorem exists_cons_of_append {pre rest cs : List Char} {c : Char}
    (hclose : closingLength triple ≤ pre.length) (h : pre ++ rest = c :: cs) :
    ∃ tail, pre = c :: tail ∧ cs = tail ++ rest := by
  cases pre with
  | nil => exact absurd (closingLength_pos triple) (Nat.not_lt_of_ge hclose)
  | cons d pre =>
    obtain ⟨rfl, rfl⟩ := List.cons.inj h
    exact ⟨pre, rfl, rfl⟩

/-- A way to read literals is local if a literal holds its closing quotes and is told from the
characters that it takes up. -/
structure Local (body : Char → Bool → List Char → Literal) : Prop where
  /-- The closing quotes are there. -/
  bounds : ∀ {quote triple cs content used}, body quote triple cs = closed content used →
    closingLength triple ≤ used ∧ used ≤ cs.length
  /-- What is behind the literal makes no difference. -/
  append : ∀ {quote triple pre rest content used},
    body quote triple (pre ++ rest) = closed content used → used ≤ pre.length →
      ∀ rest', body quote triple (pre ++ rest') = closed content used

theorem ordinary_bounds {cs content : List Char} {used : Nat}
    (h : ordinary quote triple cs = closed content used) :
    closingLength triple ≤ used ∧ used ≤ cs.length := by
  fun_induction ordinary quote triple cs generalizing content used with
  | case1 => cases h
  | case2 c cs hfeed => cases h
  | case3 c cs hfeed n hclosing =>
    cases h
    obtain ⟨rfl, hle⟩ := closing?_eq_some hclosing
    exact ⟨Nat.le_refl _, hle⟩
  | case4 cs n hescape hfeed hclosing => cases h
  | case5 cs content' n hescape hfeed hclosing ih =>
    obtain ⟨more, m, hmore, rfl, rfl⟩ := prepend_eq_closed.mp h
    obtain ⟨hclose, hle⟩ := ih hmore
    have hn := Escape.snd_le hescape
    rw [List.length_drop] at hle
    rw [List.length_cons]
    omega
  | case6 c cs hfeed hclosing hslash ih =>
    obtain ⟨more, m, hmore, rfl, rfl⟩ := prepend_eq_closed.mp h
    obtain ⟨hclose, hle⟩ := ih hmore
    rw [List.length_cons]
    omega

theorem ordinary_append {pre rest content : List Char} {used : Nat}
    (h : ordinary quote triple (pre ++ rest) = closed content used) (hused : used ≤ pre.length)
    (rest' : List Char) : ordinary quote triple (pre ++ rest') = closed content used := by
  generalize hcs : pre ++ rest = cs at h
  have hclose : closingLength triple ≤ pre.length :=
    Nat.le_trans (ordinary_bounds h).1 hused
  fun_induction ordinary quote triple cs generalizing pre content used with
  | case1 => cases h
  | case2 c cs hfeed => cases h
  | case3 c cs hfeed n hclosing =>
    obtain ⟨pre, rfl, rfl⟩ := exists_cons_of_append hclose hcs
    rw [List.cons_append, ordinary, if_neg hfeed, ← List.cons_append,
      closing?_append hclose rest rest', List.cons_append, hclosing]
    exact h
  | case4 cs n hescape hfeed hclosing => cases h
  | case5 cs content' n hescape hfeed hclosing ih =>
    obtain ⟨pre, rfl, rfl⟩ := exists_cons_of_append hclose hcs
    obtain ⟨more, m, hmore, rfl, rfl⟩ := prepend_eq_closed.mp h
    have hm := (ordinary_bounds hmore).1
    have hpos := closingLength_pos triple
    rw [List.length_cons] at hused
    -- the escape and the closing quotes are there, so that the escape ends in front of the end
    have hn : n < pre.length := by omega
    have hescape' := Escape.read_append hescape hn rest'
    have hdrop : ∀ tail : List Char, (pre ++ tail).drop n = pre.drop n ++ tail :=
      fun tail => List.drop_append_of_le_length (Nat.le_of_lt hn)
    have hlength : m ≤ (pre.drop n).length := by
      rw [List.length_drop]
      omega
    have hrest := ih hlength (hdrop rest).symm hmore (Nat.le_trans hm hlength)
    rw [List.cons_append, ordinary, if_neg hfeed, ← List.cons_append,
      closing?_append hclose rest rest', List.cons_append, hclosing]
    dsimp only
    rw [if_pos rfl, hescape']
    dsimp only
    rw [hdrop, hrest]
    rfl
  | case6 c cs hfeed hclosing hslash ih =>
    obtain ⟨pre, rfl, rfl⟩ := exists_cons_of_append hclose hcs
    obtain ⟨more, m, hmore, rfl, rfl⟩ := prepend_eq_closed.mp h
    have hm := (ordinary_bounds hmore).1
    rw [List.length_cons] at hused
    have hlength : m ≤ pre.length := by omega
    have hrest := ih hlength rfl hmore (Nat.le_trans hm hlength)
    rw [List.cons_append, ordinary, if_neg hfeed, ← List.cons_append,
      closing?_append hclose rest rest', List.cons_append, hclosing]
    dsimp only
    rw [if_neg hslash, hrest]
    rfl

theorem ordinary_local : Local ordinary := ⟨ordinary_bounds, ordinary_append⟩

theorem raw_bounds {cs content : List Char} {used : Nat}
    (h : raw quote triple cs = closed content used) :
    closingLength triple ≤ used ∧ used ≤ cs.length := by
  fun_induction raw quote triple cs generalizing content used with
  | case1 => cases h
  | case2 c cs hfeed => cases h
  | case3 c cs hfeed n hclosing =>
    cases h
    obtain ⟨rfl, hle⟩ := closing?_eq_some hclosing
    exact ⟨Nat.le_refl _, hle⟩
  | case4 hfeed hclosing => cases h
  | case5 d cs hfeed hclosing ih =>
    obtain ⟨more, m, hmore, rfl, rfl⟩ := prepend_eq_closed.mp h
    obtain ⟨hclose, hle⟩ := ih hmore
    rw [List.length_cons, List.length_cons]
    omega
  | case6 c cs hlast hpair hfeed hclosing ih =>
    obtain ⟨more, m, hmore, rfl, rfl⟩ := prepend_eq_closed.mp h
    obtain ⟨hclose, hle⟩ := ih hmore
    rw [List.length_cons]
    omega

theorem raw_append {pre rest content : List Char} {used : Nat}
    (h : raw quote triple (pre ++ rest) = closed content used) (hused : used ≤ pre.length)
    (rest' : List Char) : raw quote triple (pre ++ rest') = closed content used := by
  generalize hcs : pre ++ rest = cs at h
  have hclose : closingLength triple ≤ pre.length := Nat.le_trans (raw_bounds h).1 hused
  fun_induction raw quote triple cs generalizing pre content used with
  | case1 => cases h
  | case2 c cs hfeed => cases h
  | case3 c cs hfeed n hclosing =>
    obtain ⟨pre, rfl, rfl⟩ := exists_cons_of_append hclose hcs
    rw [List.cons_append, raw.eq_def]
    dsimp only
    rw [if_neg hfeed, ← List.cons_append, closing?_append hclose rest rest', List.cons_append,
      hclosing]
    exact h
  | case4 hfeed hclosing => cases h
  | case5 d cs hfeed hclosing ih =>
    obtain ⟨pre, rfl, heq⟩ := exists_cons_of_append hclose hcs
    obtain ⟨more, m, hmore, rfl, rfl⟩ := prepend_eq_closed.mp h
    have hm := (raw_bounds hmore).1
    have hpos := closingLength_pos triple
    rw [List.length_cons] at hused
    -- the pair is not the end of what is there, since the closing quotes follow it
    cases pre with
    | nil =>
      rw [List.length_nil] at hused
      omega
    | cons e pre =>
      rw [List.cons_append, List.cons.injEq] at heq
      obtain ⟨rfl, rfl⟩ := heq
      rw [List.length_cons] at hused
      have hlength : m ≤ pre.length := by omega
      have hrest := ih hlength rfl hmore (Nat.le_trans hm hlength)
      rw [List.cons_append, List.cons_append, raw.eq_def]
      dsimp only
      rw [if_neg hfeed, ← List.cons_append, ← List.cons_append,
        closing?_append hclose rest rest', List.cons_append, List.cons_append, hclosing]
      show prepend ['\\', d] 2 (raw quote triple (pre ++ rest')) = _
      rw [hrest]
      rfl
  | case6 c cs hlast hpair hfeed hclosing ih =>
    obtain ⟨pre, rfl, rfl⟩ := exists_cons_of_append hclose hcs
    obtain ⟨more, m, hmore, rfl, rfl⟩ := prepend_eq_closed.mp h
    have hm := (raw_bounds hmore).1
    rw [List.length_cons] at hused
    have hlength : m ≤ pre.length := by omega
    have hrest := ih hlength rfl hmore (Nat.le_trans hm hlength)
    have hslash : c ≠ '\\' := by
      intro hc
      cases hcs : pre ++ rest with
      | nil => exact hlast hc hcs
      | cons d tail => exact hpair d tail hc hcs
    rw [List.cons_append, raw.eq_def]
    dsimp only
    rw [if_neg hfeed, ← List.cons_append, closing?_append hclose rest rest', List.cons_append,
      hclosing]
    dsimp only
    split
    · exact absurd rfl hslash
    · exact absurd rfl hslash
    · rw [hrest]
      rfl

theorem raw_local : Local raw := ⟨raw_bounds, raw_append⟩

/-- A literal takes up characters that are there, and at least one. -/
theorem Local.read_bounds {body : Char → Bool → List Char → Literal} (hbody : Local body)
    {cs content : List Char} {used : Nat} (h : read body quote cs = closed content used) :
    0 < used ∧ used ≤ cs.length := by
  unfold read at h
  split at h
  · next hopen =>
    obtain ⟨more, m, hmore, rfl, rfl⟩ := prepend_eq_closed.mp h
    have hlength := (List.isPrefixOf_iff_prefix.mp hopen).length_le
    have hle := (hbody.bounds hmore).2
    simp only [List.length_drop, List.length_cons, List.length_nil] at hle hlength
    omega
  · obtain ⟨hclose, hle⟩ := hbody.bounds h
    exact ⟨Nat.lt_of_lt_of_le (closingLength_pos _) hclose, hle⟩

/-- What follows a literal may be exchanged, but for a quote behind the two of an empty one. -/
theorem Local.read_append {body : Char → Bool → List Char → Literal} (hbody : Local body)
    {pre rest content : List Char} {used : Nat}
    (h : read body quote (pre ++ rest) = closed content used) (hused : used ≤ pre.length)
    {rest' : List Char} (hrest' : ∀ c ∈ rest'.head?, c ≠ quote) :
    read body quote (pre ++ rest') = closed content used := by
  have hpos := (hbody.read_bounds h).1
  unfold read at h ⊢
  match pre with
  | [] =>
    rw [List.length_nil] at hused
    omega
  | [a] =>
    rw [List.length_singleton] at hused
    split at h
    · -- three quotes and what closes them are more than one character
      obtain ⟨more, m, hmore, rfl, rfl⟩ := prepend_eq_closed.mp h
      omega
    · have hopen : [quote, quote].isPrefixOf ([a] ++ rest') = false := by
        cases rest' with
        | nil => simp [List.isPrefixOf]
        | cons b rest' =>
          have hb : b ≠ quote := hrest' b rfl
          simp [List.isPrefixOf, Ne.symm hb]
      rw [hopen, if_neg Bool.false_ne_true]
      exact hbody.append h hused rest'
  | a :: b :: pre =>
    have hopen : [quote, quote].isPrefixOf (a :: b :: pre ++ rest') =
        [quote, quote].isPrefixOf (a :: b :: pre ++ rest) := by
      simp [List.isPrefixOf]
    rw [hopen]
    split at h
    · next heq =>
      rw [if_pos heq]
      obtain ⟨more, m, hmore, rfl, rfl⟩ := prepend_eq_closed.mp h
      rw [List.length_cons, List.length_cons] at hused
      have hm : m ≤ pre.length := by omega
      have hmore' : body quote true (pre ++ rest) = closed more m := hmore
      have hrest := hbody.append hmore' hm rest'
      show prepend [] 2 (body quote true (pre ++ rest')) = _
      rw [hrest]
      rfl
    · next heq =>
      rw [if_neg heq]
      exact hbody.append h hused rest'

end Literal

/-! ### Lexemes -/

namespace Lexeme

theorem isPrefix_numberTail (cs : List Char) : numberTail cs <+: cs := by
  induction cs with
  | nil => exact List.prefix_rfl
  | cons c cs ih =>
    rw [numberTail]
    split
    · exact (List.prefix_cons_inj c).mpr ih
    · split
      · exact (List.prefix_cons_inj c).mpr ih
      · exact List.nil_prefix

/-- The lexeme of a literal is that of one that is closed. -/
theorem ofLiteral_eq_ok {shift : Nat} {literal : Literal} {l : Lexeme}
    (h : ofLiteral shift literal = .ok l) :
    ∃ content used, literal = .closed content used ∧ l.length = shift + used + 1 := by
  cases literal with
  | closed content used =>
    cases h
    exact ⟨content, used, rfl, rfl⟩
  | unterminated used => cases h
  | missingHexDigit used => cases h

theorem length_le_of_ofLiteral {body : Char → Bool → List Char → Literal}
    (hbody : Literal.Local body) {shift : Nat} {quote : Char} {cs : List Char} {l : Lexeme}
    (h : ofLiteral shift (Literal.read body quote cs) = .ok l) :
    l.length ≤ shift + cs.length + 1 := by
  obtain ⟨content, used, hread, hlength⟩ := ofLiteral_eq_ok h
  have hused := (hbody.read_bounds hread).2
  omega

/-- A quote that opens a raw literal stands right behind its letter. -/
theorem rawQuote?_eq_some {c quote : Char} {cs tail : List Char}
    (h : rawQuote? c cs = some (quote, tail)) : cs = quote :: tail ∧ isQuote quote := by
  cases cs with
  | nil => cases h
  | cons d cs =>
    rw [rawQuote?, Option.ite_none_right_eq_some] at h
    obtain ⟨⟨-, hquote⟩, heq⟩ := h
    cases heq
    exact ⟨rfl, hquote⟩

/-- A sign of two characters has its second one right behind the first. -/
theorem length_le_of_sign? {c : Char} {cs : List Char} {l : Lexeme} (h : sign? c cs = some l) :
    l.length ≤ cs.length + 1 := by
  have htwo : ∀ d, cs.head? = some d → 2 ≤ cs.length + 1 := by
    intro d hd
    cases cs with
    | nil => cases hd
    | cons e cs => exact Nat.le_add_left 2 _
  have hone : 1 ≤ cs.length + 1 := Nat.le_add_left 1 _
  unfold sign? at h
  split at h
  case h_8 => cases h
  all_goals
    dsimp only at h
    split at h
  all_goals cases h
  all_goals first | exact hone | exact htwo _ (by assumption)

/-- **A lexeme takes up characters that are there.** -/
theorem length_le {c : Char} {cs : List Char} {l : Lexeme} (h : read c cs = .ok l) :
    l.length ≤ cs.length + 1 := by
  have hone : 1 ≤ cs.length + 1 := Nat.le_add_left 1 _
  have htail : ∀ {tail : List Char}, tail <+: cs → tail.length + 1 ≤ cs.length + 1 :=
    fun htail => Nat.succ_le_succ htail.length_le
  cases read_eq_ok_iff.mp h with
  | feed => exact hone
  | comment => exact htail (List.takeWhile_prefix _)
  | string _ hliteral =>
    have hlength := length_le_of_ofLiteral Literal.ordinary_local hliteral
    omega
  | raw hraw hliteral =>
    obtain ⟨rfl, -⟩ := rawQuote?_eq_some hraw
    have hlength := length_le_of_ofLiteral Literal.raw_local hliteral
    rw [List.length_cons]
    omega
  | sign h => exact length_le_of_sign? h
  | number => exact htail (isPrefix_numberTail cs)
  | mark => exact hone
  | word => exact htail (List.takeWhile_prefix _)

/-! ### Exchanging what follows -/

/-- The text goes on with no lexeme in front of it: it starts with no character of a word or a
number, with no quote, and with no sign that is the end of a longer one. -/
def Detached (rest : List Char) : Prop :=
  ∀ c ∈ rest.head?, isWordPart c = false ∧ isQuote c = false ∧ c ∉ ['.', '*', '/', '=']

variable {c : Char} {pre rest rest' : List Char} {l : Lexeme}

/-- What is taken from the head of a text is told from the first character that is not taken. -/
theorem takeWhile_exchange {p : Char → Bool} {n : Nat} (hn : n ≤ pre.length)
    (h : ((pre ++ rest).takeWhile p).length = n)
    (hrest' : n = pre.length → ∀ c ∈ rest'.head?, p c = false) :
    (pre ++ rest').takeWhile p = (pre ++ rest).takeWhile p := by
  rw [List.takeWhile_append] at h ⊢
  rw [List.takeWhile_append]
  split at h
  · next hall =>
    rw [if_pos hall, if_pos hall]
    rw [List.length_append] at h
    have hrest : rest.takeWhile p = [] := by
      apply List.eq_nil_of_length_eq_zero
      omega
    have hnone : rest'.takeWhile p = [] := by
      cases rest' with
      | nil => rfl
      | cons d rest' =>
        have hd : p d = false := hrest' (by omega) d rfl
        rw [List.takeWhile_cons_of_neg (by simp [hd])]
    rw [hrest, hnone]
  · next hall => rw [if_neg hall, if_neg hall]

theorem ofLiteral_exchange {body : Char → Bool → List Char → Literal}
    (hbody : Literal.Local body) {shift : Nat} {quote : Char} (hquote : isQuote quote)
    (h : ofLiteral shift (Literal.read body quote (pre ++ rest)) = .ok l)
    (hlength : l.length ≤ shift + pre.length + 1) (hrest' : Detached rest') :
    ofLiteral shift (Literal.read body quote (pre ++ rest')) = .ok l := by
  obtain ⟨content, used, hread, hused⟩ := ofLiteral_eq_ok h
  have hle : used ≤ pre.length := by omega
  have hne : ∀ c ∈ rest'.head?, c ≠ quote := by
    intro c hc heq
    have hnot := (hrest' c hc).2.1
    rw [heq, hquote] at hnot
    cases hnot
  rw [hbody.read_append hread hle hne, ← hread]
  exact h

theorem rawQuote?_exchange (h : rawQuote? c (pre ++ rest) = none) (hrest' : Detached rest') :
    rawQuote? c (pre ++ rest') = none := by
  cases pre with
  | nil =>
    apply rawQuote?_eq_none
    intro d hd
    exact (hrest' d hd).2.1
  | cons d pre => simpa [rawQuote?] using h

/-- A sign is told from the character behind it, and only one that ends a longer sign matters. -/
theorem sign?_congr {c : Char} {cs ds : List Char}
    (h : ∀ d ∈ ['*', '/', '='], cs.head? = some d ↔ ds.head? = some d) :
    sign? c cs = sign? c ds := by
  have hstar := h '*' (by decide)
  have hslash := h '/' (by decide)
  have hequals := h '=' (by decide)
  unfold sign?
  dsimp only
  simp only [hstar, hslash, hequals]

/-- A number goes on with the characters of words, and with what starts a number. -/
theorem numberTail_cons (d : Char) (cs : List Char) : numberTail (d :: cs) =
    if isWordPart d || startsNumber d cs then d :: numberTail cs else [] := by
  rw [numberTail, startsNumber]
  by_cases hpart : isWordPart d = true
  · rw [if_pos hpart, hpart, Bool.true_or, if_pos rfl]
  · have hdigit : isDigit d = false := by
      by_contra h
      exact hpart (isWordPart_of_isDigit ((Bool.not_eq_false _).mp h))
    rw [if_neg hpart, hdigit, (Bool.not_eq_true _).mp hpart, Bool.false_or, Bool.false_or]
    simp only [Bool.and_eq_true, beq_iff_eq]

/-- Whether a number starts is told from the next character, which belongs to the number. -/
theorem startsNumber_exchange
    (h : startsNumber c (pre ++ rest) = true → (numberTail (pre ++ rest)).length ≤ pre.length)
    (hrest' : Detached rest') : startsNumber c (pre ++ rest') = startsNumber c (pre ++ rest) := by
  cases pre with
  | cons d pre => rfl
  | nil =>
    rw [List.nil_append] at h
    unfold startsNumber at h ⊢
    rw [List.nil_append, List.nil_append]
    have hnot : ∀ d, isWordPart d = false → isDigit d = false := by
      intro d hd
      by_contra hdigit
      rw [isWordPart_of_isDigit ((Bool.not_eq_false _).mp hdigit)] at hd
      cases hd
    have hdetached : rest'.head?.any isDigit = false := by
      cases rest' with
      | nil => rfl
      | cons d rest' => exact hnot d (hrest' d rfl).1
    rw [hdetached, Bool.and_false, Bool.or_false]
    cases hdigit : isDigit c with
    | true => rfl
    | false =>
      by_contra hdot
      have hstarts := (Bool.not_eq_false _).mp fun heq => hdot (Eq.symm heq)
      have hlength := h (by rw [hdigit]; exact hstarts)
      rw [Bool.false_or, Bool.and_eq_true] at hstarts
      -- the digit behind the dot belongs to the number, which then is longer than what is there
      cases rest with
      | nil => exact absurd hstarts.2 (by simp)
      | cons d rest =>
        have hd : isDigit d = true := by simpa using hstarts.2
        rw [numberTail, if_pos (isWordPart_of_isDigit hd)] at hlength
        exact absurd hlength (Nat.not_succ_le_zero _)

theorem numberTail_exchange (h : (numberTail (pre ++ rest)).length ≤ pre.length)
    (hrest' : Detached rest') : numberTail (pre ++ rest') = numberTail (pre ++ rest) := by
  induction pre with
  | nil =>
    have hrest : numberTail rest = [] := List.eq_nil_of_length_eq_zero (Nat.le_zero.mp h)
    have hnone : numberTail rest' = [] := by
      cases rest' with
      | nil => rfl
      | cons d rest' =>
        obtain ⟨hpart, -, hsign⟩ := hrest' d rfl
        have hdot : d ≠ '.' := by
          rintro rfl
          exact hsign (by decide)
        rw [numberTail, hpart, if_neg Bool.false_ne_true, if_neg fun hd => hdot hd.1]
    rw [List.nil_append, List.nil_append, hrest, hnone]
  | cons d pre ih =>
    rw [List.cons_append, numberTail_cons] at h
    rw [List.cons_append, List.cons_append, numberTail_cons, numberTail_cons]
    by_cases hpart : isWordPart d = true
    · rw [hpart, Bool.true_or, if_pos rfl] at h
      rw [hpart, Bool.true_or, if_pos rfl, Bool.true_or, if_pos rfl,
        ih (Nat.le_of_succ_le_succ h)]
    · rw [(Bool.not_eq_true _).mp hpart, Bool.false_or] at h ⊢
      have hstarts : startsNumber d (pre ++ rest) = true →
          (numberTail (pre ++ rest)).length ≤ pre.length := by
        intro hd
        rw [hd, if_pos rfl] at h
        exact Nat.le_of_succ_le_succ h
      rw [Bool.false_or, startsNumber_exchange hstarts hrest']
      split
      · next hd => rw [ih (hstarts hd)]
      · rfl

/-- A sign may have what follows it exchanged. -/
theorem sign?_exchange (hlength : ∀ l, sign? c (pre ++ rest) = some l → l.length ≤ pre.length + 1)
    (hrest' : Detached rest') : sign? c (pre ++ rest') = sign? c (pre ++ rest) := by
  cases pre with
  | cons d pre =>
    apply sign?_congr
    intro e he
    exact Iff.rfl
  | nil =>
    have hnone : ∀ e ∈ ['*', '/', '='], rest'.head? ≠ some e := by
      intro e he heq
      have hnot := (hrest' e heq).2.2
      exact hnot (List.mem_cons_of_mem '.' he)
    have hstar := hnone '*' (by decide)
    have hslash := hnone '/' (by decide)
    have hequals := hnone '=' (by decide)
    rw [List.nil_append] at hlength ⊢
    rw [List.nil_append]
    unfold sign? at hlength ⊢
    dsimp only at hlength ⊢
    simp only [hstar, hslash, hequals, if_false]
    -- with a second character the sign would be longer than what is there
    split
    case h_8 => rfl
    all_goals
      split
    all_goals first
      | rfl
      | exact absurd (hlength _ (if_pos (by assumption))) (by decide)

/-- **What follows a lexeme may be exchanged** for a text that goes on with no lexeme; a comment
that reaches up to it has to end there, with a line feed. -/
theorem read_append (h : read c (pre ++ rest) = .ok l) (hlength : l.length ≤ pre.length + 1)
    (hcomment : l.kind = .comment → pre.length < l.length → ∀ d ∈ rest'.head?, d = '\n')
    (hrest' : Detached rest') : read c (pre ++ rest') = .ok l := by
  rw [read_eq_ok_iff]
  cases read_eq_ok_iff.mp h with
  | feed hc => exact .feed hc
  | comment hc =>
    have htext : (pre ++ rest').takeWhile (· ≠ '\n') = (pre ++ rest).takeWhile (· ≠ '\n') := by
      refine takeWhile_exchange (Nat.le_of_succ_le_succ hlength) rfl fun hreach d hd => ?_
      have hfeed : d = '\n' := hcomment rfl (Nat.lt_succ_of_le (Nat.le_of_eq hreach.symm)) d hd
      simp [hfeed]
    simpa only [htext] using @Form.comment c (pre ++ rest') hc
  | string hquote hliteral =>
    exact .string hquote
      (ofLiteral_exchange Literal.ordinary_local hquote hliteral (by omega) hrest')
  | @raw quote tail _ hraw hliteral =>
    obtain ⟨htail, hquote⟩ := rawQuote?_eq_some hraw
    cases pre with
    | nil =>
      -- the quote belongs to the literal, which then is longer than what is there
      obtain ⟨content, used, -, hused⟩ := ofLiteral_eq_ok hliteral
      rw [List.length_nil] at hlength
      omega
    | cons d pre =>
      obtain ⟨rfl, rfl⟩ := List.cons.inj htail
      have hraw' : rawQuote? c (d :: pre ++ rest') = some (d, pre ++ rest') := by
        rw [List.cons_append, rawQuote?, Option.ite_none_right_eq_some] at hraw ⊢
        exact ⟨hraw.1, rfl⟩
      rw [List.length_cons] at hlength
      exact .raw hraw' (ofLiteral_exchange Literal.raw_local hquote hliteral (by omega) hrest')
  | sign hsign =>
    have hshort : ∀ l', sign? c (pre ++ rest) = some l' → l'.length ≤ pre.length + 1 := by
      intro l' hl'
      rw [hsign] at hl'
      cases hl'
      exact hlength
    exact .sign ((sign?_exchange hshort hrest').trans hsign)
  | number hnumber =>
    have hshort : (numberTail (pre ++ rest)).length ≤ pre.length :=
      Nat.le_of_succ_le_succ hlength
    rw [← numberTail_exchange hshort hrest']
    exact .number ((startsNumber_exchange (fun _ => hshort) hrest').trans hnumber)
  | mark hkind hnumber =>
    have hnone : startsNumber c (pre ++ rest) = true →
        (numberTail (pre ++ rest)).length ≤ pre.length :=
      fun hstarts => absurd hstarts (ne_true_of_eq_false hnumber)
    exact .mark hkind ((startsNumber_exchange hnone hrest').trans hnumber)
  | word hstart hraw =>
    have hshort := Nat.le_of_succ_le_succ hlength
    have htext : (pre ++ rest').takeWhile isWordPart = (pre ++ rest).takeWhile isWordPart :=
      takeWhile_exchange hshort rfl fun _ d hd => (hrest' d hd).1
    rw [← htext]
    exact .word hstart (rawQuote?_exchange hraw hrest')

/-- A lexeme heads its text in front of whatever it is not told from. -/
theorem Heads.exchange {text : List Char} {s : Symbol} (h : Heads text s (pre ++ rest))
    (hcomment : s.kind = .comment → pre = [] → ∀ d ∈ rest'.head?, d = '\n')
    (hrest' : Detached rest') : Heads text s (pre ++ rest') := by
  obtain ⟨c, cs, l, rfl, hread, rfl, hlength⟩ := h
  rw [← List.append_assoc] at hread
  refine ⟨c, cs, l, rfl, ?_, rfl, hlength⟩
  rw [← List.append_assoc]
  rw [List.length_cons] at hlength
  refine read_append hread ?_ ?_ hrest'
  · rw [List.length_append]
    omega
  · intro hkind hreach
    rw [List.length_append] at hreach
    exact hcomment hkind (List.eq_nil_of_length_eq_zero (by omega))

end Lexeme

end StarlarkLint
