import Mathlib
import StarlarkLint.Proofs.Grammar.Balance
import StarlarkLint.Proofs.Grammar.Recognition
import StarlarkLint.Proofs.Token.Tiling

/-!
# Excerpts

The text in the span of a value is the value's own: put in parentheses it is read as that value and
nothing else, wherever the value stood.  What is told from the text behind it is not lost, since a
parenthesis goes on with no lexeme; line feeds that were passed over stay inside brackets, since the
value closes no bracket that it does not open; and comments end in front of the value's last token.

## Main definitions

* `Portable` — a text that is read in the same way wherever brackets are open around it.

## Main results

* `Passes.portable` — what the scanner passes is portable.
* `parse_excerpt` — every value of a file is what its excerpt is read as.
-/

namespace StarlarkLint

open Lexeme

/-! ### Texts inside brackets -/

/-- Inside brackets that it does not close, the text is read as the symbols in front of whatever
goes on with no lexeme. -/
def Portable (text : List Char) (ss : List Symbol) : Prop :=
  ∀ depth rest, StaysOpen depth ss → Detached rest →
    ∃ depth', Lexes depth (text ++ rest) ss depth' rest

theorem Gap.mono {depth depth' : Nat} {cs : List Char} (h : Gap depth cs) (h' : 0 < depth') :
    Gap depth' cs := by
  induction h with
  | nil => exact .nil
  | blank hc _ ih => exact .blank hc ih
  | continuation _ ih => exact .continuation ih
  | feed _ _ ih => exact .feed h' ih

/-- Comments are no brackets. -/
theorem StaysOpen.of_filter {depth : Nat} {ss : List Symbol}
    (h : StaysOpen depth (ss.filter (·.kind ≠ .comment))) : StaysOpen depth ss := by
  induction ss generalizing depth with
  | nil => exact h
  | cons s ss ih =>
    refine ⟨h.pos, ?_⟩
    by_cases hs : s.kind = .comment
    · rw [List.filter_cons_of_neg (by simp [hs])] at h
      rw [hs]
      exact ih h
    · rw [List.filter_cons_of_pos (by simp [hs])] at h
      exact ih h.2

namespace Passes

variable {depth depth' : Nat} {p p' : Position} {used cs rest : List Char} {t : Token}
  {ts : List Token}

/-- **What the scanner passes is portable**, unless it ends with a comment. -/
theorem portable (h : Passes depth p (used ++ rest) ts depth' p' rest)
    (hline : ∀ t ∈ ts, t.kind ≠ .newline) (hlast : ∀ t ∈ ts.getLast?, t.kind ≠ .comment) :
    Portable used (ts.map Token.symbol) := by
  generalize hcs : used ++ rest = cs at h
  induction h generalizing used with
  | done =>
    obtain rfl : used = [] := List.append_left_eq_self.mp hcs
    intro depth rest _ _
    exact ⟨depth, .done⟩
  | @token _ _ _ _ gap text _ rest t ts hgap hheads _ _ h ih =>
    obtain ⟨tail, rfl, -, hsome⟩ := h.exists_used
    have hused : used ++ rest = gap ++ (text ++ tail) ++ rest := by simpa using hcs
    obtain rfl := List.append_cancel_right hused
    rw [List.forall_mem_cons] at hline
    have hbehind : ∀ u ∈ ts.getLast?, u.kind ≠ .comment := by
      intro u hu
      have hmem : u ∈ ([t] ++ ts).getLast? := List.mem_getLast?_append_of_mem_getLast? hu
      exact hlast u hmem
    intro depth behind hopen hdetached
    obtain ⟨depth', hlexes⟩ := ih hline.2 hbehind rfl _ behind hopen.2 hdetached
    have hheads' : Heads text t.symbol (tail ++ behind) := by
      refine hheads.exchange (fun hkind hnil => absurd hnil (hsome ?_)) hdetached
      -- a comment is not the last token
      rintro rfl
      exact hlast t rfl hkind
    have hcounts : Scan.counts depth t.symbol.kind = true := by
      simp [Scan.counts, hline.1]
    refine ⟨depth', ?_⟩
    rw [List.append_assoc, List.append_assoc]
    exact .gap (hgap.mono hopen.1) (.symbol hheads' hcounts hlexes)

/-- The last token ends where the scanner has arrived. -/
theorem span_stop (h : Passes depth p cs ts depth' p' rest) :
    ∀ t ∈ ts.getLast?, t.span.stop = p' := by
  induction h with
  | done =>
    intro t ht
    cases ht
  | @token _ _ p _ gap text cs rest t ts _ _ _ hspan h ih =>
    intro u hu
    cases ts with
    | nil =>
      obtain rfl : t = u := Option.some.inj hu
      cases h
      rw [hspan]
    | cons v ts => exact ih u hu

/-- The gap in front of the first token may be left out. -/
theorem without_gap (h : Passes depth p cs (t :: ts) depth' p' rest) :
    ∃ gap tail, cs = gap ++ tail ∧ t.span.start = p.through gap ∧
      Passes depth (p.through gap) tail (t :: ts) depth' p' rest := by
  cases h with
  | @token _ _ _ _ gap text cs _ _ _ hgap hheads hcounts hspan h =>
    have hthrough := Position.through_append p gap text
    refine ⟨gap, text ++ cs, rfl, by rw [hspan], ?_⟩
    rw [hthrough] at hspan h
    exact .token .nil hheads hcounts hspan h

end Passes

/-! ### Stretches of a list with elements left out -/

section

variable {α : Type} {p : α → Bool} {xs ys : List α}

theorem exists_suffix_of_filter {before : List α} (h : xs.filter p = before ++ ys) (hys : ys ≠ []) :
    ∃ zs, zs <:+ xs ∧ zs.filter p = ys ∧ zs.head? = ys.head? := by
  obtain ⟨front, back, rfl, -, hback⟩ := List.filter_eq_append_iff.mp h
  cases ys with
  | nil => exact absurd rfl hys
  | cons y ys =>
    obtain ⟨gap, rest, rfl, -, hy, hrest⟩ := List.filter_eq_cons_iff.mp hback
    refine ⟨y :: rest, ⟨front ++ gap, by simp⟩, ?_, rfl⟩
    rw [List.filter_cons_of_pos hy, hrest]

theorem exists_prefix_of_filter {behind : List α} (h : xs.filter p = ys ++ behind) (hys : ys ≠ []) :
    ∃ zs, zs <+: xs ∧ zs.filter p = ys ∧ zs.getLast? = ys.getLast? := by
  have hreverse : xs.reverse.filter p = behind.reverse ++ ys.reverse := by
    rw [List.filter_reverse, h, List.reverse_append]
  have hne : ys.reverse ≠ [] := by
    rwa [ne_eq, List.reverse_eq_nil_iff]
  obtain ⟨zs, hzs, hfilter, hhead⟩ := exists_suffix_of_filter hreverse hne
  refine ⟨zs.reverse, ?_, ?_, ?_⟩
  · rwa [← List.reverse_suffix, List.reverse_reverse]
  · rw [List.filter_reverse, hfilter, List.reverse_reverse]
  · rw [List.getLast?_reverse, hhead, List.head?_reverse]

/-- Elements that stand side by side when others are left out span a stretch of the whole list. -/
theorem exists_infix_of_filter (h : ys <:+: xs.filter p) (hys : ys ≠ []) :
    ∃ zs, zs <:+: xs ∧ zs.filter p = ys ∧ zs.head? = ys.head? ∧ zs.getLast? = ys.getLast? := by
  obtain ⟨before, behind, heq⟩ := h
  have hfront : before ++ ys ≠ [] := by
    intro hnil
    exact hys (List.append_eq_nil_iff.mp hnil).2
  obtain ⟨us, hus, hfilter, hlast⟩ := exists_prefix_of_filter heq.symm hfront
  obtain ⟨zs, hzs, hzfilter, hhead⟩ := exists_suffix_of_filter hfilter hys
  refine ⟨zs, hzs.isInfix.trans hus.isInfix, hzfilter, hhead, ?_⟩
  have hne : zs ≠ [] := by
    rintro rfl
    exact hys hzfilter.symm
  obtain ⟨front, rfl⟩ := hzs
  rw [List.getLast?_append_of_ne_nil _ hne, List.getLast?_append_of_ne_nil _ hys] at hlast
  exact hlast

end

/-! ### The excerpt of a value -/

/-- The text that the scanner passes between the ends of a stretch of tokens. -/
theorem Passes.exists_portable {depth depth' : Nat} {p p' : Position} {cs rest : List Char}
    {body ts : List Token} (h : Passes depth p cs body depth' p' rest) (hts : ts <:+: body)
    (hline : ∀ t ∈ ts, t.kind ≠ .newline) {first last : Token} (hfirst : first ∈ ts.head?)
    (hlast : last ∈ ts.getLast?) (hcomment : last.kind ≠ .comment) :
    ∃ before text behind, cs = before ++ (text ++ behind) ∧
      first.span.start = p.through before ∧ last.span.stop = p.through (before ++ text) ∧
      Portable text (ts.map Token.symbol) := by
  obtain ⟨front, back, rfl⟩ := hts
  rw [List.append_assoc] at h
  obtain ⟨depth₁, p₁, mid, hfront, h⟩ := h.split
  obtain ⟨depth₂, p₂, behind, hmid, -⟩ := h.split
  obtain ⟨before, rfl, rfl, -⟩ := hfront.exists_used
  cases ts with
  | nil => cases hfirst
  | cons t ts =>
    obtain rfl : t = first := Option.some.inj hfirst
    obtain ⟨gap, tail, rfl, hstart, hmid⟩ := hmid.without_gap
    obtain ⟨text, rfl, rfl, -⟩ := hmid.exists_used
    refine ⟨before ++ gap, text, behind, by simp, ?_, ?_, ?_⟩
    · rw [hstart, Position.through_append]
    · rw [hmid.span_stop last hlast, Position.through_append, Position.through_append]
    · refine hmid.portable hline fun u hu => ?_
      obtain rfl : last = u := Option.mem_unique hlast hu
      exact hcomment

namespace Grammar

/-- The tokens of a text are spelled as their kinds are. -/
theorem starsSpelled_of_tokensOf {source : String} {ts : List Token} (h : TokensOf source ts) :
    StarsSpelled ts := by
  intro t ht hstar
  have hend : t.symbol.kind ≠ .endOfFile := by
    rw [Token.kind_symbol]
    rcases hstar with hkind | hkind <;> simp [hkind]
  have hgenuine := genuine_of_tokensOf h t.symbol (List.mem_map_of_mem ht) hend
  have hsign := Lexeme.mem_signTexts_of_genuine hgenuine (by
    rw [Token.kind_symbol]
    rcases hstar with hkind | hkind <;> simp [hkind])
  have hall : ∀ p ∈ Lexeme.signTexts, p.1 = .star ∨ p.1 = .doubleStar → p.2 ∈ ["*", "**"] := by
    decide
  exact hall _ hsign hstar

/-- A portable text that spells a value is read as the value when it stands in parentheses. -/
theorem exists_parse_of_portable {text : List Char} {ss : List Symbol} {v : Node}
    (htext : Portable text ss) (hv : Derives (.value 0) (ss.filter (·.kind ≠ .comment)) v)
    (path : String) (dialect : Option Dialect) :
    ∃ g, SourceFile.parse ("(" ++ String.ofList text ++ ")") path dialect = .ok g ∧
      Node.bareAll g.statements = [v] := by
  have hopen : StaysOpen 1 ss := by
    apply StaysOpen.of_filter
    have hnil : StaysOpen 1 [] := Nat.one_pos
    have hall := hv.balanced.staysOpen Nat.one_pos hnil
    rwa [List.append_nil] at hall
  have hdetached : Detached [')'] := by
    intro c hc
    obtain rfl : ')' = c := Option.some.inj hc
    decide
  obtain ⟨depth, hlexes⟩ := htext 1 [')'] hopen hdetached
  have hopening : Lexes 0 ('(' :: (text ++ [')'])) [⟨.lparen, "("⟩] 1 (text ++ [')']) :=
    lexes_char rfl (by decide) 0 _
  have hclosing : Lexes depth [')'] [⟨.rparen, ")"⟩] (depth - 1) [] :=
    lexes_char rfl (by decide) depth []
  have hwhole := hopening.trans (hlexes.trans hclosing)
  have htexts : ("(" ++ String.ofList text ++ ")").toList = '(' :: (text ++ [')']) := by simp
  rw [← htexts] at hwhole
  have henclosed : Derives (.value 8) (⟨.lparen, "("⟩ ::
      (ss.filter (·.kind ≠ .comment) ++ [⟨.rparen, ")"⟩])) v := .parenthesised rfl hv rfl
  have hload : ¬ StartsLoad (⟨.lparen, "("⟩ ::
      (ss.filter (·.kind ≠ .comment) ++ [⟨.rparen, ")"⟩])) := by
    intro hload
    cases hfilter : ss.filter (·.kind ≠ .comment) with
    | nil =>
      rw [hfilter] at hload
      exact absurd hload.1 (by decide)
    | cons s ss =>
      rw [hfilter] at hload
      exact absurd hload.1 (by decide)
  have hstatement := StatementDerives.value (henclosed.loosen (Nat.zero_le 8)) hload
  have hfile : FileDerives (_ ++ [⟨.endOfFile, ""⟩]) [v] := .of_block (.last hstatement) rfl
  refine exists_parse_of_lexes hwhole ?_ path dialect
  simpa using hfile

/-- The excerpt of a value is portable and spells the value. -/
theorem StandsIn.exists_portable {source : String} {ts : List Token} {n : Node}
    (hts : tokens source = .ok ts) (h : StandsIn ts n) :
    ∃ text ss, n.span.textIn source = String.ofList text ∧ Portable text ss ∧
      Derives (.value 0) (ss.filter (·.kind ≠ .comment)) n.bare := by
  obtain ⟨us, hus, hp⟩ := h
  have hinner : ∀ t ∈ us, IsInner t.symbol := by
    intro t ht
    exact hp.derives.isInner t.symbol (List.mem_map_of_mem ht)
  obtain ⟨first, hfirst, hstart⟩ := hp.span_start
  obtain ⟨last, hlast, hstop⟩ := hp.span_stop
  have hend : last.kind ≠ .comment := (hinner last (List.mem_of_getLast? hlast)).kind_ne_comment
  obtain ⟨body, depth, p, gap, hpasses, -, rfl⟩ := exists_passes_of_tokens hts
  -- the mark of the end is not among the tokens of the value
  have hbody : us <:+: body.filter (·.kind ≠ .comment) := by
    refine (List.infix_concat_iff.mp hus).resolve_left fun hsuffix => ?_
    rcases List.suffix_concat_iff.mp hsuffix with hnil | ⟨front, rfl, -⟩
    · exact hp.ne_nil hnil
    · exact (hinner (.endAt (p.through gap)) (by simp)).kind_ne_endOfFile rfl
  obtain ⟨ts, hinfix, hfilter, hhead, hfinal⟩ := exists_infix_of_filter hbody hp.ne_nil
  have hline : ∀ t ∈ ts, t.kind ≠ .newline := by
    intro t ht hkind
    have hmem : t ∈ us := by
      rw [← hfilter, List.mem_filter]
      exact ⟨ht, by simp [hkind]⟩
    exact hinner t hmem (by simp [hkind])
  rw [← hhead] at hfirst
  rw [← hfinal] at hlast
  obtain ⟨before, text, behind, hsource, hfrom, hto, hportable⟩ :=
    hpasses.exists_portable hinfix hline hfirst hlast hend
  have htext := Span.textIn_eq hsource (hstart.trans hfrom) (hstop.trans hto)
  refine ⟨text, ts.map Token.symbol, htext, hportable, ?_⟩
  have hsymbols : (ts.map Token.symbol).filter (·.kind ≠ .comment) = us.map Token.symbol := by
    rw [List.filter_map, ← hfilter]
    rfl
  rw [hsymbols]
  exact hp.derives

end Grammar

open Grammar in
/-- **Every value of a file is what its excerpt is read as**: the text in its span, put in
parentheses, spells that value and nothing else. -/
theorem parse_excerpt {source path : String} {dialect : Option Dialect} {f : SourceFile}
    (h : SourceFile.parse source path dialect = .ok f) :
    ∀ n ∈ f.values, ∀ path' dialect', ∃ g,
      SourceFile.parse ("(" ++ n.span.textIn source ++ ")") path' dialect' = .ok g ∧
        Node.bareAll g.statements = [n.bare] := by
  intro n hn path' dialect'
  obtain ⟨ts, hts, hf⟩ := parse_eq_ok_iff.mp h
  obtain ⟨r, hr, rfl⟩ := ofTokens_eq_ok_iff.mp hf
  have htokens := tokensOf_of_tokens hts
  obtain ⟨m, hm, hmem⟩ := List.mem_flatMap.mp hn
  have hstands := statements_located ts (readable_of_tokensOf htokens).spelled
    (starsSpelled_of_tokensOf htokens) hr m hm n hmem
  obtain ⟨text, ss, htext, hportable, hderives⟩ := hstands.exists_portable hts
  rw [htext]
  exact exists_parse_of_portable hportable hderives path' dialect'

set_option maxRecDepth 4000 in
/-- The excerpt of a sum over two lines holds a comment and a continued line, and spells the sum. -/
theorem parse_excerpt_sum :
    ∃ f n, SourceFile.parse "f(x = 1 + # y\n'a' \\\n'b')" "BUILD" (some .build) = .ok f ∧
      n ∈ f.values ∧ n.span.textIn "f(x = 1 + # y\n'a' \\\n'b')" = "1 + # y\n'a' \\\n'b'" ∧
      ∀ path dialect, ∃ g,
        SourceFile.parse ("(" ++ n.span.textIn "f(x = 1 + # y\n'a' \\\n'b')" ++ ")") path dialect =
          .ok g ∧ Node.bareAll g.statements = [n.bare] := by
  let sum : Node := .binary ⟨⟨1, 7⟩, ⟨3, 4⟩⟩ "+" (.number ⟨⟨1, 7⟩, ⟨1, 8⟩⟩ "1")
    (.string ⟨⟨2, 1⟩, ⟨3, 4⟩⟩ "ab")
  let call : Node := .call ⟨⟨1, 1⟩, ⟨3, 5⟩⟩ (.ident ⟨⟨1, 1⟩, ⟨1, 2⟩⟩ "f")
    [.assign ⟨⟨1, 3⟩, ⟨3, 4⟩⟩ (.ident ⟨⟨1, 3⟩, ⟨1, 4⟩⟩ "x") "=" sum]
  have hparse : SourceFile.parse "f(x = 1 + # y\n'a' \\\n'b')" "BUILD" (some .build) =
      .ok ⟨⟨⟨1, 1⟩, ⟨3, 5⟩⟩, "BUILD", .build, [call]⟩ := by cbv
  have hmem : sum ∈ SourceFile.values ⟨⟨⟨1, 1⟩, ⟨3, 5⟩⟩, "BUILD", .build, [call]⟩ := by
    simp [SourceFile.values, Node.statementValues, Node.values, Node.valuesAll, call, sum]
  exact ⟨_, sum, hparse, hmem, by cbv, parse_excerpt hparse sum hmem⟩

end StarlarkLint
