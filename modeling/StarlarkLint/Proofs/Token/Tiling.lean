import StarlarkLint.Proofs.Position
import StarlarkLint.Proofs.Token.Lookahead
import StarlarkLint.Proofs.Token.Scan

/-!
# Tokens tile the text

Nothing of a text is lost when it is read.  Every token stands for the characters in its span, the
spans follow one another, and what lies between two of them is blank: spaces, tabs, carriage
returns, continued lines, and line feeds where brackets are open.

The scanner goes from place to place.  `Passes` says what it passes on the way from one place to
another, with the text of every token cut out; `Tiles` says the same of a whole text, with tokens
given by the numbers of the characters where they start and end.

## Main definitions

* `Symbol.Spelled` — how the text of a token is written.
* `Passes` — the tokens between two places of a text.
* `Tiles` — the tokens of a text, and the ranges of characters they take up.

## Main results

* `Scan.passesAll`, `exists_passes_of_tokens` — what the scanner passes up to the end of a text.
* `tokens_eq_ok_iff` — and what it passes decides about the tokens of the text.
* `Scan.exists_tiles` — the tokens of a text without a problem tile it.
-/

namespace StarlarkLint

/-- What the scanner skips is a gap with any number of brackets open. -/
theorem Gap.of_blanks (depth : Nat) (cs : List Char) : Gap depth (cs.take (Cursor.blanks cs)) := by
  fun_induction Cursor.blanks cs with
  | case1 cs ih => exact .blank (.inl rfl) ih
  | case2 cs ih => exact .blank (.inr (.inl rfl)) ih
  | case3 cs ih => exact .blank (.inr (.inr rfl)) ih
  | case4 cs ih => exact .continuation ih
  | case5 => exact .nil

/-! ### The text of a token -/

/-- A symbol is spelled by the text: a comment behind a hash, a string in some way, and every other
symbol as it is. -/
def Symbol.Spelled (s : Symbol) (text : List Char) : Prop :=
  match s.kind with
  | .string => True
  | .comment => text = '#' :: s.value.toList
  | _ => text = s.value.toList

theorem Symbol.spelled_of_eq {s : Symbol} {text : List Char} (hkind : s.kind ≠ .comment)
    (h : text = s.value.toList) : s.Spelled text := by
  unfold Spelled
  split
  · exact True.intro
  · next heq => exact absurd heq hkind
  · exact h

namespace Lexeme

variable {c : Char} {cs : List Char} {l : Lexeme}

theorem spelled_of_ofLiteral {shift : Nat} {literal : Literal} (h : ofLiteral shift literal = .ok l)
    (text : List Char) : l.symbol.Spelled text := by
  cases literal with
  | closed content used =>
    cases h
    exact True.intro
  | unterminated used => cases h
  | missingHexDigit used => cases h

theorem spelled_of_sign? (h : sign? c cs = some l) :
    l.symbol.Spelled ((c :: cs).take l.length) := by
  have htwo : ∀ d, cs.head? = some d → (c :: cs).take 2 = [c, d] := by
    intro d hd
    obtain ⟨tail, rfl⟩ := List.head?_eq_some_iff.mp hd
    rfl
  unfold sign? at h
  split at h
  case h_8 => cases h
  all_goals
    dsimp only at h
    split at h
  all_goals cases h
  all_goals first
    | rfl
    | exact htwo _ (by assumption)

/-- **A lexeme is spelled by the characters it takes up.** -/
theorem spelled_of_read (h : read c cs = .ok l) : l.symbol.Spelled ((c :: cs).take l.length) := by
  have htake : ∀ tail : List Char, tail <+: cs →
      (c :: cs).take (tail.length + 1) = (String.ofList (c :: tail)).toList := by
    intro tail htail
    rw [List.take_succ_cons, ← List.prefix_iff_eq_take.mp htail, String.toList_ofList]
  cases read_eq_ok_iff.mp h with
  | feed hc =>
    rw [hc]
    rfl
  | comment hc =>
    rw [hc]
    show ('#' :: cs).take _ = '#' :: (String.ofList _).toList
    rw [List.take_succ_cons, String.toList_ofList,
      ← List.prefix_iff_eq_take.mp (List.takeWhile_prefix _)]
  | string _ h => exact spelled_of_ofLiteral h _
  | raw _ h => exact spelled_of_ofLiteral h _
  | sign h => exact spelled_of_sign? h
  | number => exact htake _ (isPrefix_numberTail cs)
  | mark hkind =>
    apply Symbol.spelled_of_eq
    · have hall : ∀ p ∈ signTexts, p.1 ≠ .comment := by decide
      exact hall _ (mem_signTexts_of_ofChar? hkind)
    · simp [ofSign]
  | word =>
    apply Symbol.spelled_of_eq
    · simp only [ofWord, kind_symbol]
      split <;> decide
    · exact htake _ (List.takeWhile_prefix _)

theorem Heads.length_pos {text rest : List Char} {s : Symbol} (h : Heads text s rest) :
    0 < text.length := by
  obtain ⟨c, cs, l, rfl, -⟩ := h
  exact Nat.succ_pos _

theorem Heads.genuine {text rest : List Char} {s : Symbol} (h : Heads text s rest) :
    s.Genuine := by
  obtain ⟨c, cs, l, -, hread, rfl, -⟩ := h
  exact genuine_symbol hread

theorem Heads.spelled {text rest : List Char} {s : Symbol} (h : Heads text s rest) :
    s.Spelled text := by
  obtain ⟨c, cs, l, rfl, hread, rfl, hlength⟩ := h
  have hspelled := spelled_of_read hread
  rw [hlength, ← List.cons_append, List.take_left' rfl] at hspelled
  exact hspelled

end Lexeme

/-! ### From place to place -/

/-- From the first place and the text there the scanner passes the tokens and arrives at the second.
The numbers are those of the brackets that are open. -/
inductive Passes :
    Nat → Position → List Char → List Token → Nat → Position → List Char → Prop
  /-- Nothing is passed. -/
  | done {depth : Nat} {p : Position} {cs : List Char} : Passes depth p cs [] depth p cs
  /-- A token is passed, and the gap in front of it. -/
  | token {depth depth' : Nat} {p p' : Position} {gap text cs rest : List Char} {t : Token}
      {ts : List Token} (hgap : Gap depth gap) (hheads : Lexeme.Heads text t.symbol cs)
      (hcounts : Scan.counts depth t.kind = true)
      (hspan : t.span = ⟨p.through gap, p.through (gap ++ text)⟩)
      (h : Passes (t.kind.depthAfter depth) (p.through (gap ++ text)) cs ts depth' p' rest) :
      Passes depth p (gap ++ (text ++ cs)) (t :: ts) depth' p' rest

/-- The token at the end of a text. -/
def Token.endAt (p : Position) : Token := ⟨.endOfFile, "", ⟨p, p⟩⟩

namespace Passes

variable {depth depth' : Nat} {p p' : Position} {cs rest : List Char} {ts us : List Token}

/-- The places are those in front of and behind what was passed. -/
theorem exists_used (h : Passes depth p cs ts depth' p' rest) :
    ∃ used, cs = used ++ rest ∧ p' = p.through used ∧ (ts ≠ [] → used ≠ []) := by
  induction h with
  | done => exact ⟨[], rfl, rfl, fun h => absurd rfl h⟩
  | @token _ _ p _ gap text _ _ t ts _ hheads _ _ _ ih =>
    obtain ⟨used, rfl, rfl, -⟩ := ih
    refine ⟨gap ++ text ++ used, by simp, ?_, fun _ hnil => ?_⟩
    · rw [Position.through_append p (gap ++ text)]
    · rw [List.append_eq_nil_iff, List.append_eq_nil_iff] at hnil
      exact absurd hnil.1.2 (List.ne_nil_of_length_pos hheads.length_pos)

/-- What is passed can be passed in two parts. -/
theorem split (h : Passes depth p cs (ts ++ us) depth' p' rest) :
    ∃ depth'' p'' mid, Passes depth p cs ts depth'' p'' mid ∧
      Passes depth'' p'' mid us depth' p' rest := by
  induction ts generalizing depth p cs with
  | nil => exact ⟨depth, p, cs, .done, h⟩
  | cons t ts ih =>
    cases h with
    | token hgap hheads hcounts hspan h =>
      obtain ⟨depth'', p'', mid, hts, hus⟩ := ih h
      exact ⟨depth'', p'', mid, .token hgap hheads hcounts hspan hts, hus⟩

end Passes

/-- Up to the end of the text the scanner passes the tokens, of which the last marks the end. -/
def PassesAll (depth : Nat) (p : Position) (cs : List Char) (ts : List Token) : Prop :=
  ∃ body depth' p' gap, Passes depth p cs body depth' p' gap ∧ Gap depth' gap ∧
    ts = body ++ [.endAt (p'.through gap)]

/-- A gap in front of a text belongs to its first token. -/
theorem PassesAll.gap {depth : Nat} {p : Position} {gap cs : List Char} {ts : List Token}
    (hgap : Gap depth gap) (h : PassesAll depth (p.through gap) cs ts) :
    PassesAll depth p (gap ++ cs) ts := by
  obtain ⟨body, depth', p', last, hbody, hlast, rfl⟩ := h
  cases hbody with
  | done =>
    refine ⟨[], depth, p, gap ++ cs, .done, hgap.append hlast, ?_⟩
    rw [Position.through_append]
  | @token _ _ _ _ gap' text cs _ t ts hgap' hheads hcounts hspan hts =>
    refine ⟨t :: ts, depth', p', last, ?_, hlast, rfl⟩
    have hthrough : ∀ ds, (p.through gap).through ds = p.through (gap ++ ds) :=
      fun ds => (Position.through_append p gap ds).symm
    rw [hthrough, hthrough] at hspan
    rw [hthrough] at hts
    rw [← List.append_assoc]
    refine .token (hgap.append hgap') hheads hcounts ?_ ?_
    · rw [List.append_assoc]
      exact hspan
    · rw [List.append_assoc]
      exact hts

/-- A token in front of a text is the first to be passed. -/
theorem PassesAll.cons {depth : Nat} {p : Position} {text cs : List Char} {t : Token}
    {ts : List Token} (hheads : Lexeme.Heads text t.symbol cs)
    (hcounts : Scan.counts depth t.kind = true) (hspan : t.span = ⟨p, p.through text⟩)
    (h : PassesAll (t.kind.depthAfter depth) (p.through text) cs ts) :
    PassesAll depth p (text ++ cs) (t :: ts) := by
  obtain ⟨body, depth', p', gap, hbody, hgap, rfl⟩ := h
  have htoken : Passes depth p ([] ++ (text ++ cs)) (t :: body) depth' p' gap :=
    .token .nil hheads hcounts hspan hbody
  exact ⟨t :: body, depth', p', gap, htoken, hgap, rfl⟩

/-- The only lexeme of its kind is the line feed. -/
theorem Symbol.Genuine.value_of_newline {s : Symbol} (h : s.Genuine) (hkind : s.kind = .newline) :
    s.value = "\n" := by
  cases h with
  | newline => rfl
  | word hstart htail =>
    simp only [Lexeme.ofWord, Lexeme.kind_symbol] at hkind
    split at hkind <;> cases hkind
  | @sign kind text hsign =>
    have hall : ∀ p ∈ Lexeme.signTexts, p.1 ≠ .newline := by decide
    exact absurd hkind (hall _ hsign)
  | number hstart htail => cases hkind
  | string value => cases hkind
  | comment text => cases hkind

namespace Scan

variable {cursor : Cursor} {c : Char} {cs : List Char} {l : Lexeme}

/-- A lexeme heads the text that it is read from. -/
theorem heads_of_read (h : Lexeme.read c cs = .ok l) :
    Lexeme.Heads ((c :: cs).take l.length) l.symbol ((c :: cs).drop l.length) := by
  obtain ⟨n, hn⟩ : ∃ n, l.length = n + 1 := Nat.exists_eq_add_one.mpr l.length_pos
  refine ⟨c, cs.take n, l, ?_, ?_, rfl, ?_⟩
  · rw [hn, List.take_succ_cons]
  · rw [hn, List.drop_succ_cons, List.take_append_drop]
    exact h
  · rw [List.length_take, List.length_cons, Nat.min_eq_left (Lexeme.length_le h)]

/-- A lexeme that does not count is a line feed inside brackets, and belongs to a gap. -/
theorem gap_of_not_counts {depth : Nat} (h : Lexeme.read c cs = .ok l)
    (hcounts : ¬ counts depth l.kind = true) :
    Gap depth ((c :: cs).take l.length) ∧ l.kind.depthAfter depth = depth := by
  rw [counts, Bool.or_eq_true, not_or, bne_iff_ne, not_not, beq_iff_eq] at hcounts
  obtain ⟨hkind, hdepth⟩ := hcounts
  have hvalue := (Lexeme.genuine_symbol h).value_of_newline hkind
  have hspelled := Lexeme.spelled_of_read h
  rw [Symbol.Spelled, Lexeme.kind_symbol, hkind] at hspelled
  dsimp only at hspelled
  rw [hspelled, hvalue, hkind]
  exact ⟨.feed (Nat.pos_of_ne_zero hdepth) .nil, rfl⟩

/-- What is passed from the next place that is not blank is passed from here. -/
theorem passesAll_of_skipBlanks {depth : Nat} {ts : List Token}
    (h : PassesAll depth cursor.skipBlanks.position cursor.skipBlanks.rest ts) :
    PassesAll depth cursor.position cursor.rest ts := by
  have hposition : cursor.skipBlanks.position =
      cursor.position.through (cursor.rest.take (Cursor.blanks cursor.rest)) :=
    cursor.position_advance _
  rw [hposition, Cursor.rest_skipBlanks] at h
  have hall := h.gap (.of_blanks depth cursor.rest)
  rwa [List.take_append_drop] at hall

/-- **The scanner passes the tokens of a text that has no problem.** -/
theorem passesAll (cursor : Cursor) (depth : Nat) (h : (go cursor depth).error = none) :
    PassesAll depth cursor.position cursor.rest (go cursor depth).tokens := by
  fun_induction go cursor depth with
  | case1 cursor depth here hrest =>
    apply passesAll_of_skipBlanks
    have hend : cursor.skipBlanks.rest = [] := hrest
    rw [hend]
    exact ⟨[], depth, _, [], .done, .nil, rfl⟩
  | case2 => cases h
  | case3 cursor depth here c cs hrest l hread next scan hcounts ih =>
    apply passesAll_of_skipBlanks
    have hhere : cursor.skipBlanks.rest = c :: cs := hrest
    have hnext := ih h
    rw [Cursor.position_advance, Cursor.rest_advance, hrest] at hnext
    rw [hhere, ← List.take_append_drop l.length (c :: cs)]
    refine .cons (heads_of_read hread) hcounts ?_ hnext
    show (⟨here.position, next.position⟩ : Span) = _
    rw [Cursor.position_advance, hrest]
  | case4 cursor depth here c cs hrest l hread next scan hcounts ih =>
    apply passesAll_of_skipBlanks
    have hhere : cursor.skipBlanks.rest = c :: cs := hrest
    have hnext := ih h
    obtain ⟨hgap, hdepth⟩ := gap_of_not_counts hread hcounts
    have hscan : scan = go next depth := congrArg (go next) hdepth
    rw [Cursor.position_advance, Cursor.rest_advance, hrest, hdepth] at hnext
    rw [hhere, ← List.take_append_drop l.length (c :: cs), hscan]
    exact hnext.gap hgap

end Scan

/-- The tokens of a text are those that the scanner passes, but for comments, and the mark of its
end. -/
theorem exists_passes_of_tokens {source : String} {ts : List Token} (h : tokens source = .ok ts) :
    ∃ body depth p gap, Passes 0 .origin source.toList body depth p gap ∧ Gap depth gap ∧
      ts = body.filter (·.kind ≠ .comment) ++ [.endAt (p.through gap)] := by
  unfold tokens at h
  dsimp only at h
  split at h
  · cases h
  · next hnone =>
    cases h
    obtain ⟨body, depth, p, gap, hbody, hgap, htokens⟩ := Scan.passesAll (.start source) 0 hnone
    refine ⟨body, depth, p, gap, hbody, hgap, ?_⟩
    rw [Scan.withoutComments, Scan.ofText, htokens, List.filter_append]
    rfl

/-- **The scanner goes where the tokens lead.** -/
theorem Passes.exists_go {depth depth' : Nat} {p p' : Position} {cs rest : List Char}
    {ts : List Token} (h : Passes depth p cs ts depth' p' rest) (cursor : Cursor)
    (hrest : cursor.rest = cs) (hp : cursor.position = p) :
    ∃ cursor' : Cursor, cursor'.rest = rest ∧ cursor'.position = p' ∧
      (Scan.go cursor depth).tokens = ts ++ (Scan.go cursor' depth').tokens ∧
      (Scan.go cursor depth).error = (Scan.go cursor' depth').error := by
  induction h generalizing cursor with
  | done => exact ⟨cursor, hrest, hp, rfl, rfl⟩
  | @token depth _ p _ gap text cs _ t ts hgap hheads hcounts hspan _ ih =>
    rw [Scan.go_gap hgap cursor hrest]
    have hbehind : (cursor.advance gap.length).rest = text ++ cs := by simp [hrest]
    have hplace : (cursor.advance gap.length).position = p.through gap := by
      rw [Cursor.position_advance, hrest, hp, List.take_left]
    generalize cursor.advance gap.length = here at hbehind hplace
    have hnext : (here.advance text.length).position = p.through (gap ++ text) := by
      rw [Cursor.position_advance, hbehind, hplace, List.take_left, ← Position.through_append]
    obtain ⟨cursor', hrest', hp', htokens, herror⟩ :=
      ih (here.advance text.length) (by simp [hbehind]) hnext
    refine ⟨cursor', hrest', hp', ?_⟩
    rw [Scan.go_heads hheads hcounts hbehind, hnext, hplace, ← hspan]
    exact ⟨congrArg (t :: ·) htokens, herror⟩

/-- **The tokens of a text** are those that the scanner passes, but for comments, and the mark of
its end. -/
theorem tokens_eq_ok_iff {source : String} {ts : List Token} :
    tokens source = .ok ts ↔
      ∃ body depth p gap, Passes 0 .origin source.toList body depth p gap ∧ Gap depth gap ∧
        ts = body.filter (·.kind ≠ .comment) ++ [.endAt (p.through gap)] := by
  constructor
  · exact exists_passes_of_tokens
  · rintro ⟨body, depth, p, gap, hbody, hgap, rfl⟩
    obtain ⟨cursor, hrest, hp, htokens, herror⟩ := hbody.exists_go (.start source) rfl rfl
    have hgo : Scan.go cursor depth = Scan.go (cursor.advance gap.length) depth :=
      Scan.go_gap hgap cursor (show cursor.rest = gap ++ [] by simp [hrest])
    have hend : (cursor.advance gap.length).rest = [] := by simp [hrest]
    have hplace : (cursor.advance gap.length).position = p.through gap := by
      rw [Cursor.position_advance, hrest, hp, List.take_length]
    generalize cursor.advance gap.length = here at hgo hend hplace
    have hskip : here.skipBlanks = here := by
      rw [Cursor.skipBlanks, hend]
      rfl
    rw [hgo, Scan.go_nil depth (by rw [hskip, hend]), hskip, hplace] at htokens herror
    have hnone : (Scan.ofText source).error = none := herror
    have hall : (Scan.ofText source).tokens = body ++ [.endAt (p.through gap)] := htokens
    rw [tokens, hnone, Scan.withoutComments, hall, List.filter_append]
    rfl

/-! ### By the numbers of the characters -/

/-- The tokens of a text from its `i`-th character on, and the ranges of characters that they take
up, each from its first up to but not including its last.  The number is that of the brackets that
are open. -/
inductive Tiles (cs : List Char) : Nat → Nat → List Token → List (Nat × Nat) → Prop
  /-- Behind the last gap the end of the text is marked. -/
  | stop {i depth : Nat} (hi : i ≤ cs.length) (hgap : Gap depth (cs.extract i cs.length)) :
      Tiles cs i depth [.endAt (.behind cs)] [(cs.length, cs.length)]
  /-- Behind a gap there is a token, and behind it there are the others. -/
  | token {i depth a b : Nat} {t : Token} {ts : List Token} {ranges : List (Nat × Nat)}
      (hia : i ≤ a) (hab : a < b) (hb : b ≤ cs.length) (hgap : Gap depth (cs.extract i a))
      (hkind : t.kind ≠ .endOfFile) (hline : t.kind = .newline → depth = 0)
      (hspan : t.span = ⟨.behind (cs.take a), .behind (cs.take b)⟩)
      (hspelled : t.symbol.Spelled (cs.extract a b))
      (h : Tiles cs b (t.kind.depthAfter depth) ts ranges) :
      Tiles cs i depth (t :: ts) ((a, b) :: ranges)

/-- What is passed behind a text is tiled from there on. -/
theorem Passes.exists_ranges {depth depth' : Nat} {p p' : Position} {before cs gap : List Char}
    {ts : List Token} (h : Passes depth p cs ts depth' p' gap) (hgap : Gap depth' gap)
    (hp : p = .behind before) :
    ∃ ranges, Tiles (before ++ cs) before.length depth (ts ++ [.endAt (p'.through gap)])
      ranges := by
  induction h generalizing before with
  | @done depth p cs =>
    have hstop : Tiles (before ++ cs) before.length depth [.endAt (.behind (before ++ cs))] _ :=
      .stop (by simp) (by simpa using hgap)
    rw [hp, Position.through_behind]
    exact ⟨_, hstop⟩
  | @token depth _ p _ gap' text cs _ t ts hgap' hheads hcounts hspan _ ih =>
    subst hp
    have hpos : 0 < text.length := hheads.length_pos
    obtain ⟨ranges, hranges⟩ := ih hgap (Position.through_behind before (gap' ++ text))
    have hsplit : before ++ (gap' ++ text) ++ cs = before ++ (gap' ++ (text ++ cs)) := by simp
    have hstart : before ++ gap' ++ (text ++ cs) = before ++ (gap' ++ (text ++ cs)) := by simp
    rw [hsplit] at hranges
    refine ⟨((before ++ gap').length, (before ++ (gap' ++ text)).length) :: ranges, ?_⟩
    refine .token ?_ ?_ ?_ ?_ hheads.genuine.kind_ne_endOfFile ?_ ?_ ?_ hranges
    · rw [List.length_append]
      exact Nat.le_add_right _ _
    · simp only [List.length_append]
      omega
    · simp only [List.length_append]
      omega
    · simpa using hgap'
    · intro hfeed
      simpa [Scan.counts, hfeed] using hcounts
    · -- the places are those behind what stands in front of the token, and behind the token
      rw [hspan, Position.through_behind, Position.through_behind, ← hsplit, List.take_left,
        hsplit, ← hstart, List.take_left]
    · have htext : (before ++ (gap' ++ text)).length - (before ++ gap').length = text.length := by
        simp only [List.length_append]
        omega
      rw [List.extract_eq_take_drop, htext, ← hstart, List.drop_left, List.take_left]
      exact hheads.spelled

/-- **The tokens of a text without a problem tile it.** -/
theorem Scan.exists_tiles {source : String} (h : (Scan.ofText source).error = none) :
    ∃ ranges, Tiles source.toList 0 0 (Scan.ofText source).tokens ranges := by
  obtain ⟨body, depth, p, gap, hbody, hgap, htokens⟩ := Scan.passesAll (.start source) 0 h
  have hstart : Position.origin = .behind [] := rfl
  show ∃ ranges, Tiles source.toList 0 0 (Scan.go (.start source) 0).tokens ranges
  rw [htokens]
  exact hbody.exists_ranges hgap hstart

set_option maxRecDepth 2000 in
/-- A list on two lines with a comment is tiled by seven tokens: the line feed inside the brackets
belongs to a gap. -/
theorem Scan.exists_tiles_list : (Scan.ofText "[x, # y\n'\\t']").tokens.length = 7 ∧
    ∃ ranges, Tiles "[x, # y\n'\\t']".toList 0 0 (Scan.ofText "[x, # y\n'\\t']").tokens ranges :=
  ⟨by cbv, Scan.exists_tiles (by cbv)⟩

end StarlarkLint
