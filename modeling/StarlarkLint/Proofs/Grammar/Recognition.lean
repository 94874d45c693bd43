import StarlarkLint.Proofs.Grammar.Completeness
import StarlarkLint.Proofs.Grammar.Failure

/-!
# The parser recognises the grammar

The tokens of a text spell a file exactly if they derive it, and there is at most one such file;
where they derive none, the parser answers with an error that names what is wrong with them.

## Main definitions

* `TokensOf` — the tokens that a text is read as, with or without its comments.

## Main results

* `Grammar.ofTokens_iff_derives` — the parser recognises the grammar.
-/

namespace StarlarkLint

/-- The tokens that a text is read as, with or without its comments. -/
def TokensOf (source : String) (ts : List Token) : Prop :=
  (Scan.ofText source).error = none ∧
    (ts = (Scan.ofText source).tokens ∨ ts = (Scan.ofText source).withoutComments)

namespace Grammar

/-- A sign that is a lexeme stands for itself. -/
theorem mem_signs_of_genuine {s : Symbol} (h : s.Genuine) (hkind : s.kind ∈ Operator.signKinds) :
    s ∈ signs := by
  cases h with
  | sign hsign =>
    have hall : ∀ p ∈ Lexeme.signTexts, p.1 ∈ Operator.signKinds → ⟨p.1, p.2⟩ ∈ signs := by decide
    exact hall _ hsign hkind
  | word hstart htail =>
    simp only [Lexeme.ofWord, Lexeme.kind_symbol] at hkind
    split at hkind <;> exact absurd hkind (by decide)
  | _ => simp [Operator.signKinds] at hkind

/-- The tokens of a text are lexemes, but for the mark of its end. -/
theorem genuine_of_tokensOf {source : String} {ts : List Token} (h : TokensOf source ts) :
    ∀ s ∈ ts.map Token.symbol, s.kind ≠ .endOfFile → s.Genuine := by
  intro s hs hend
  obtain ⟨t, ht, rfl⟩ := List.mem_map.mp hs
  have hmem : t ∈ (Scan.ofText source).tokens := by
    rcases h.2 with rfl | rfl
    · exact ht
    · exact List.mem_of_mem_filter ht
  exact (Scan.genuine_of_mem _ _ t hmem).resolve_right hend

/-- The tokens of a text are ready to be read. -/
theorem readable_of_tokensOf {source : String} {ts : List Token} (h : TokensOf source ts) :
    Readable ts where
  spelled := by
    intro t ht hkind
    refine mem_signs_of_genuine (genuine_of_tokensOf h _ (List.mem_map_of_mem ht) ?_) hkind
    intro hend
    rw [Token.kind_symbol] at hend
    rw [hend] at hkind
    exact absurd hkind (by decide)
  marked := by
    have hmarked : Terminated (Scan.ofText source).tokens := Scan.terminated _ _ h.1
    rcases h.2 with rfl | rfl
    · exact hmarked
    · exact hmarked.filter fun t _ hend => by simp [hend]

/-- What a list of tokens spells is what its statements are. -/
theorem ofTokens_eq_ok_iff {path : String} {dialect : Dialect} {ts : List Token} {f : SourceFile} :
    SourceFile.ofTokens path dialect ts = .ok f ↔ ∃ r, statements ts = .ok r ∧
      f = { span := ⟨.origin, (r.2.map (·.span.stop)).getD .origin⟩, path, dialect,
            statements := r.1 } := by
  unfold SourceFile.ofTokens
  cases statements ts with
  | error e => simp [bind, Except.bind]
  | ok r => simp [bind, Except.bind, eq_comm]

/-- What a text spells is what its tokens spell. -/
theorem parse_eq_ok_iff {source path : String} {dialect : Option Dialect} {f : SourceFile} :
    SourceFile.parse source path dialect = .ok f ↔ ∃ ts, tokens source = .ok ts ∧
      SourceFile.ofTokens path (dialect.getD (.ofPath (.parse path))) ts = .ok f := by
  unfold SourceFile.parse
  cases tokens source with
  | error e => simp [Except.mapError, bind, Except.bind]
  | ok ts =>
    cases hf : SourceFile.ofTokens path (dialect.getD (.ofPath (.parse path))) ts with
    | error e => simp [Except.mapError, bind, Except.bind, hf]
    | ok g => simp [Except.mapError, bind, Except.bind, hf]

/-- The tokens of a text without a problem are its tokens without comments. -/
theorem tokensOf_of_tokens {source : String} {ts : List Token} (h : tokens source = .ok ts) :
    TokensOf source ts := by
  unfold tokens at h
  dsimp only at h
  split at h
  · cases h
  · next hnone =>
    cases h
    exact ⟨hnone, .inr rfl⟩

/-- A text that is read as the symbols of a file, comments apart, spells the file. -/
theorem exists_parse_of_lexes {text : String} {ss : List Symbol} {depth : Nat} {ns : List Node}
    (hlexes : Lexes 0 text.toList ss depth [])
    (hderives : FileDerives (ss.filter (·.kind ≠ .comment) ++ [⟨.endOfFile, ""⟩]) ns)
    (path : String) (dialect : Option Dialect) :
    ∃ f, SourceFile.parse text path dialect = .ok f ∧ Node.bareAll f.statements = ns := by
  obtain ⟨ts, hts, heq⟩ := hlexes.exists_tokens
  rw [← heq] at hderives
  obtain ⟨r, hr, hbare⟩ := hderives.complete
  exact ⟨_, parse_eq_ok_iff.mpr ⟨ts, hts, ofTokens_eq_ok_iff.mpr ⟨r, hr, rfl⟩⟩, hbare⟩

/-- **The parser recognises the grammar.**  The tokens of a text spell a file with the given
statements, apart from places, exactly if they derive it; and if they derive none, the parser
refuses them, but not for want of a token behind an item. -/
theorem ofTokens_iff_derives {source : String} {ts : List Token} (hts : TokensOf source ts)
    (path : String) (dialect : Dialect) :
    (∀ tree : List Node,
      (∃ f, SourceFile.ofTokens path dialect ts = .ok f ∧ f.path = path ∧ f.dialect = dialect ∧
        Node.bareAll f.statements = tree) ↔ FileDerives (ts.map Token.symbol) tree) ∧
    ((¬ ∃ tree, FileDerives (ts.map Token.symbol) tree) →
      ∃ e, SourceFile.ofTokens path dialect ts = .error e ∧
        ∀ closer, e.problem ≠ .endsBehindItem closer) := by
  have hready := readable_of_tokensOf hts
  constructor
  · intro tree
    constructor
    · rintro ⟨f, hf, -, -, rfl⟩
      obtain ⟨r, hr, rfl⟩ := ofTokens_eq_ok_iff.mp hf
      exact statements_sound ts hready.spelled hready.marked hr
    · intro hderives
      obtain ⟨r, hr, hbare⟩ := hderives.complete
      exact ⟨_, ofTokens_eq_ok_iff.mpr ⟨r, hr, rfl⟩, rfl, rfl, hbare⟩
  · intro hnone
    cases hr : statements ts with
    | ok r => exact absurd ⟨_, statements_sound ts hready.spelled hready.marked hr⟩ hnone
    | error e =>
      refine ⟨e, ?_, statements_orderly ts hready e hr⟩
      rw [SourceFile.ofTokens, hr]
      rfl

set_option maxRecDepth 2000 in
/-- An assignment derives its tree, and is read as it. -/
theorem ofTokens_assignment : TokensOf "x = 1" (Scan.ofText "x = 1").tokens ∧
    ∃ f, SourceFile.ofTokens "BUILD" .build (Scan.ofText "x = 1").tokens = .ok f ∧
      f.path = "BUILD" ∧ f.dialect = .build ∧
      Node.bareAll f.statements = [.assign {} (.ident {} "x") "=" (.number {} "1")] := by
  have hts : TokensOf "x = 1" (Scan.ofText "x = 1").tokens := ⟨by cbv, .inl rfl⟩
  refine ⟨hts, ((ofTokens_iff_derives hts "BUILD" .build).1 _).mpr ?_⟩
  have hsymbols : (Scan.ofText "x = 1").tokens.map Token.symbol =
      [⟨.identifier, "x"⟩, ⟨.equals, "="⟩, ⟨.number, "1"⟩, ⟨.endOfFile, ""⟩] := by cbv
  have hx : Derives (.value 8) [⟨.identifier, "x"⟩] (.ident {} "x") := .name rfl (by decide)
  have hone : Derives (.value 8) [⟨.number, "1"⟩] (.number {} "1") := .number rfl
  have hassign : StatementDerives ([⟨.identifier, "x"⟩] ++ ⟨.equals, "="⟩ :: [⟨.number, "1"⟩])
      (.assign {} (.ident {} "x") "=" (.number {} "1")) :=
    .assign (hx.loosen (Nat.zero_le 8)) (.inl rfl) (hone.loosen (Nat.zero_le 8)) id
  rw [hsymbols]
  exact .of_block (.last hassign) rfl

end Grammar

end StarlarkLint
