import StarlarkLint.Proofs.Layout.File

/-!
# Layouts open the fewest parentheses

The layout of a file opens the parentheses that its statements need, and no others; and every text
of the same statements needs them too.  So there is no text with fewer.

This holds of the layout as a list of tokens, also where it spells something else: brackets around
the name of a callee are dropped, even if the call becomes a load by that.

## Main definitions

* `parentheses` — the opening parentheses among tokens.

## Main results

* `FileSymbols.openings_eq` — the parentheses that a layout opens.
* `render_fewest_parentheses` — no text of the same statements opens fewer.
-/

namespace StarlarkLint

open Grammar

/-- The opening parentheses among tokens. -/
def parentheses (ts : List Token) : Nat := ts.countP (·.kind = .lparen)

theorem openings_map_symbol (ts : List Token) : openings (ts.map Token.symbol) = parentheses ts :=
  List.countP_map

theorem openings_separators {seps : List Symbol} (h : ∀ s ∈ seps, Separates s) :
    openings seps = 0 := by
  refine List.countP_eq_zero.mpr fun s hs => ?_
  rcases h s hs with hsep | hsep <;> simp [hsep]

/-- The layout of a file opens the parentheses that its statements need, and no others. -/
theorem FileSymbols.openings_eq {nodes : List Node} {ss : List Symbol}
    (h : FileSymbols nodes ss) : openings ss = Node.openingsAll nodes := by
  induction h with
  | stop hseps =>
    rw [openings_append, openings_separators hseps]
    rfl
  | statement hseps h _ _ ih =>
    rw [openings_append, openings_append, openings_separators hseps, h.opened, ih, Nat.zero_add,
      Node.openingsAll]

/-- A text opens the parentheses that the statements of its file need. -/
theorem openingsAll_le_parentheses {source path : String} {dialect : Option Dialect}
    {f : SourceFile} (h : SourceFile.parse source path dialect = .ok f) {ts : List Token}
    (hts : tokens source = .ok ts) : Node.openingsAll f.statements ≤ parentheses ts := by
  obtain ⟨us, hus, hf⟩ := parse_eq_ok_iff.mp h
  rw [hts] at hus
  cases hus
  obtain ⟨r, hr, rfl⟩ := ofTokens_eq_ok_iff.mp hf
  have htokens := tokensOf_of_tokens hts
  have hready := readable_of_tokensOf htokens
  have hderives := statements_sound ts hready.spelled hready.marked hr
  rw [← openings_map_symbol, ← Node.openingsAll_bareAll]
  exact hderives.openings_le (genuine_of_tokensOf htokens)

/-- **The layout of a file opens the fewest parentheses.**  Every text of the same statements, the
text that the file was read from among them, opens at least as many. -/
theorem render_fewest_parentheses {options : LayoutOptions}
    (hindent : ∀ c ∈ options.indent.toList, c = ' ' ∨ c = '\t') {source path : String}
    {dialect : Option Dialect} {f : SourceFile}
    (h : SourceFile.parse source path dialect = .ok f) :
    ∃ text ts, f.render options = .ok text ∧ tokens text = .ok ts ∧
      ∀ (source' path' : String) (dialect' : Option Dialect) (g : SourceFile) (us : List Token),
        SourceFile.parse source' path' dialect' = .ok g →
          Node.bareAll g.statements = Node.bareAll f.statements → tokens source' = .ok us →
            parentheses ts ≤ parentheses us := by
  obtain ⟨text, ss, htext, hlexes, hsymbols⟩ := exists_render hindent (isStatement_of_parse h)
  have hcomment : ∀ s ∈ ss, s.kind ≠ .comment :=
    fun s hs => hsymbols.kind_ne_comment s (List.mem_append_left _ hs)
  obtain ⟨ts, hts, heq⟩ := hlexes.tokens_eq_ok hcomment
  refine ⟨text, ts, htext, hts, fun source' path' dialect' g us hg hbare hus => ?_⟩
  calc parentheses ts = Node.openingsAll f.statements := by
        rw [← openings_map_symbol, heq, hsymbols.openings_eq]
    _ = Node.openingsAll g.statements := by
        rw [← Node.openingsAll_bareAll, ← hbare, Node.openingsAll_bareAll]
    _ ≤ parentheses us := openingsAll_le_parentheses hg hus

set_option maxRecDepth 2000 in
/-- A sum in parentheses times a name in parentheses: the layout keeps one pair of them. -/
theorem render_fewest_parentheses_product :
    ∃ f ts us, SourceFile.parse "(a + b) * (c)" "BUILD" (some .build) = .ok f ∧
      f.render = .ok "(a + b) * c\n" ∧ tokens "(a + b) * c\n" = .ok ts ∧
      tokens "(a + b) * (c)" = .ok us ∧ parentheses ts ≤ parentheses us := by
  let sum : Node := .binary ⟨⟨1, 1⟩, ⟨1, 8⟩⟩ "+" (.ident ⟨⟨1, 2⟩, ⟨1, 3⟩⟩ "a")
    (.ident ⟨⟨1, 6⟩, ⟨1, 7⟩⟩ "b")
  let product : Node := .binary ⟨⟨1, 1⟩, ⟨1, 14⟩⟩ "*" sum (.ident ⟨⟨1, 11⟩, ⟨1, 14⟩⟩ "c")
  have hparse : SourceFile.parse "(a + b) * (c)" "BUILD" (some .build) =
      .ok ⟨⟨⟨1, 1⟩, ⟨1, 14⟩⟩, "BUILD", .build, [product]⟩ := by cbv
  have hrender : SourceFile.render ⟨⟨⟨1, 1⟩, ⟨1, 14⟩⟩, "BUILD", .build, [product]⟩ =
      .ok "(a + b) * c\n" := by cbv
  obtain ⟨us, hus, -⟩ := parse_eq_ok_iff.mp hparse
  obtain ⟨text, ts, htext, hts, hleast⟩ := render_fewest_parentheses indent_default_blank hparse
  rw [hrender] at htext
  cases htext
  exact ⟨_, ts, us, hparse, hrender, hts, hus, hleast _ _ _ _ us hparse rfl hus⟩

end StarlarkLint
