import Mathlib
import StarlarkLint.Proofs.Token.Tiling

/-!
# Layout and comments carry no meaning

Every token of a text can be cut out and read again by itself, whatever used to stand around it.  So
the tokens of a text, written down one by one with a space behind each, are read as the same symbols
again: comments, continued lines and line feeds inside brackets are gone, and tokens that touched
each other stand apart.

## Main definitions

* `respaced` — the text of each token with a space behind it.

## Main results

* `Passes.lexes_respaced` — what is passed on the way from one place to another is read again.
* `exists_tokens_respaced` — the respaced text is read as the same symbols.
-/

namespace StarlarkLint

/-- The text of each token, cut out of the source, with a space behind it. -/
def respaced (source : String) (ts : List Token) : String :=
  String.join (ts.map fun t => t.span.textIn source ++ " ")

theorem toList_respaced_cons (source : String) (t : Token) (ts : List Token) :
    (respaced source (t :: ts)).toList =
      (t.span.textIn source).toList ++ ' ' :: (respaced source ts).toList := by
  simp [respaced]

theorem toList_respaced_append (source : String) (ts us : List Token) :
    (respaced source (ts ++ us)).toList =
      (respaced source ts).toList ++ (respaced source us).toList := by
  simp [respaced]

/-- No lexeme goes on with a space. -/
theorem Lexeme.detached_space (cs : List Char) : Detached (' ' :: cs) := by
  intro c hc
  obtain rfl : ' ' = c := Option.some.inj hc
  decide

/-- A comment does not open or close a bracket. -/
theorem TokenKind.depthAfter_comment (depth : Nat) : depthAfter depth comment = depth := rfl

/-- **What is passed on the way from one place to another is read again** from its respaced text,
but for comments.  The text in front of the first place tells where the tokens are cut out. -/
theorem Passes.lexes_respaced {source : String} {depth depth' : Nat} {p p' : Position}
    {before cs rest : List Char} {ts : List Token} (h : Passes depth p cs ts depth' p' rest)
    (hsource : source.toList = before ++ cs) (hp : p = Position.origin.through before)
    (more : List Char) :
    Lexes depth ((respaced source (ts.filter (·.kind ≠ .comment))).toList ++ more)
      ((ts.filter (·.kind ≠ .comment)).map Token.symbol) depth' more := by
  induction h generalizing before with
  | done => exact .done
  | @token depth _ p _ gap text cs _ t ts _ hheads hcounts hspan _ ih =>
    have hthrough : ∀ ds, p.through ds = Position.origin.through (before ++ ds) := by
      intro ds
      rw [hp, Position.through_append]
    have hnext : source.toList = (before ++ (gap ++ text)) ++ cs := by
      rw [hsource]
      simp only [List.append_assoc]
    have hbehind := ih hnext (hthrough (gap ++ text))
    by_cases hkind : t.kind = .comment
    · rw [hkind, TokenKind.depthAfter_comment] at hbehind
      rw [List.filter_cons_of_neg (by simp [hkind])]
      exact hbehind
    · have hplace : source.toList = (before ++ gap) ++ (text ++ cs) := by
        rw [hsource]
        simp only [List.append_assoc]
      have htext : t.span.textIn source = String.ofList text := by
        apply Span.textIn_eq hplace
        · rw [hspan]
          exact hthrough gap
        · rw [hspan, List.append_assoc]
          exact hthrough (gap ++ text)
      -- whatever stood behind the token, now a space does
      have hagain : Lexeme.Heads text t.symbol
          ([] ++ ' ' :: ((respaced source (ts.filter (·.kind ≠ .comment))).toList ++ more)) :=
        hheads.exchange (fun hcomment => absurd hcomment hkind) (Lexeme.detached_space _)
      rw [List.filter_cons_of_pos (by simp [hkind]), toList_respaced_cons, htext,
        String.toList_ofList, List.append_assoc, List.cons_append, List.map_cons]
      exact .symbol hagain hcounts (.blank (.inl rfl) hbehind)

/-- **Layout and comments carry no meaning**: the tokens of a text, written down with a space behind
each, are read as the same symbols. -/
theorem exists_tokens_respaced {source : String} {ts : List Token} (h : tokens source = .ok ts) :
    ∃ ts', tokens (respaced source ts) = .ok ts' ∧ ts'.map Token.symbol = ts.map Token.symbol := by
  obtain ⟨body, depth, p, gap, hbody, -, rfl⟩ := exists_passes_of_tokens h
  let stop := Token.endAt (p.through gap)
  have hsource : source.toList = [] ++ source.toList := rfl
  have hlexes := hbody.lexes_respaced hsource rfl (respaced source [stop]).toList
  -- at the end of the text there is nothing to cut out
  have hend : stop.span.textIn source = "" := Span.textIn_eq_empty (Position.le_refl _) source
  have hblank : Lexes depth (respaced source [stop]).toList [] depth [] := by
    rw [toList_respaced_cons, hend]
    exact .blank (.inl rfl) .done
  have hall := hlexes.trans hblank
  rw [← toList_respaced_append, List.append_nil] at hall
  have hkinds : ∀ s ∈ (body.filter (·.kind ≠ .comment)).map Token.symbol, s.kind ≠ .comment := by
    intro s hs
    obtain ⟨t, ht, rfl⟩ := List.mem_map.mp hs
    simpa using List.of_mem_filter ht
  obtain ⟨ts', hts', heq⟩ := hall.tokens_eq_ok hkinds
  refine ⟨ts', hts', ?_⟩
  rw [heq, List.map_append]
  rfl

/-- The comment, the line feed in the brackets and the continued line are gone, and the strings that
touched each other stand apart. -/
theorem exists_tokens_respaced_list :
    let source := "x=[r'\\d''b', # c\n.5]\\\n\n"
    ∃ ts, tokens source = .ok ts ∧ respaced source ts = "x = [ r'\\d' 'b' , .5 ] \n  " ∧
      ∃ ts', tokens (respaced source ts) = .ok ts' ∧
        ts'.map Token.symbol = ts.map Token.symbol := by
  intro source
  let ts : List Token :=
    [⟨.identifier, "x", ⟨⟨1, 1⟩, ⟨1, 2⟩⟩⟩, ⟨.equals, "=", ⟨⟨1, 2⟩, ⟨1, 3⟩⟩⟩,
      ⟨.lbracket, "[", ⟨⟨1, 3⟩, ⟨1, 4⟩⟩⟩, ⟨.string, "\\d", ⟨⟨1, 4⟩, ⟨1, 9⟩⟩⟩,
      ⟨.string, "b", ⟨⟨1, 9⟩, ⟨1, 12⟩⟩⟩, ⟨.comma, ",", ⟨⟨1, 12⟩, ⟨1, 13⟩⟩⟩,
      ⟨.number, ".5", ⟨⟨2, 1⟩, ⟨2, 3⟩⟩⟩, ⟨.rbracket, "]", ⟨⟨2, 3⟩, ⟨2, 4⟩⟩⟩,
      ⟨.newline, "\n", ⟨⟨3, 1⟩, ⟨4, 1⟩⟩⟩, ⟨.endOfFile, "", ⟨⟨4, 1⟩, ⟨4, 1⟩⟩⟩]
  have hts : tokens source = .ok ts := by cbv
  exact ⟨ts, hts, by decide, exists_tokens_respaced hts⟩

end StarlarkLint
