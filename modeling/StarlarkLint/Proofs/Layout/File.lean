import StarlarkLint.Proofs.Grammar.Recognition
import StarlarkLint.Proofs.Layout.Expression

/-!
# Layouts of files

A file is laid out statement by statement, with line feeds between them.  A statement that does not
start like a load by accident derives its tree again; one that does is read as a load, or not at
all, because the reader of statements decides by the first two tokens.  So the statements of a file
come back exactly if none of them starts like a load by accident.

## Main definitions

* `StatementPrinted` — what is known of the text of a statement.
* `FileSymbols` — the symbols of statements with line feeds between them.

## Main results

* `Node.IsStatement.printed` — every statement that can be spelled is printed.
* `FileSymbols.statements_iff`, `render_iff` — when the statements come back.
* `render_anyName_iff` — when they do if they may use any names.
-/

namespace StarlarkLint

open Text Lexeme Grammar

/-! ### Statements -/

/-- What is known of the text of a statement. -/
structure StatementPrinted (node : Node) (text : String) (ss : List Symbol) : Prop where
  /-- It is read as the symbols. -/
  reads : Reads text.toList ss
  /-- The symbols stand inside a statement. -/
  inner : ss ≠ [] ∧ ∀ s ∈ ss, IsInner s
  /-- They derive the statement, unless it starts like a load. -/
  derives : node.opensLoad = false → StatementDerives ss node.bare
  /-- If it does, it is none. -/
  opens : node.opensLoad = true → StartsLoad ss ∧ node.isLoad = false
  /-- The symbols open the parentheses that the statement needs, and no others. -/
  opened : openings ss = node.openings

theorem StatementPrinted.of_value {node : Node} {text : String} {ss : List Symbol}
    (h : Printed (Strength.ofNode node) node text ss) (hload : node.isLoad = false) :
    StatementPrinted node text ss where
  reads := h.reads
  inner := ⟨h.ne_nil, h.derives.isInner⟩
  derives := by
    intro hopens
    refine .value (h.derives.loosen (Nat.zero_le _)) fun hstarts => ?_
    rw [(h.opens.mp hstarts).2] at hopens
    cases hopens
  opens := fun hopens => ⟨h.opens.mpr ⟨Printed.standsFree_self node, hopens⟩, hload⟩
  opened := by rw [h.opened, Strength.brackets_eq_zero (Nat.le_refl _), Nat.add_zero]

/-- The text of an assignment starts like its target. -/
theorem StatementPrinted.of_assign {s : Span} {target value : Node} {op x y : String}
    {xs ys : List Symbol} (hop : op ∈ ["=", "+="])
    (hx : Printed (Strength.ofNode target) target x xs) (hy : Written (.value 0) value y ys) :
    ∃ ss, StatementPrinted (.assign s target op value) (x ++ " " ++ op ++ " " ++ y) ss := by
  have hkind : ∃ kind, (kind = .equals ∨ kind = .plusEquals) ∧
      (kind, op) ∈ [(TokenKind.equals, "="), (.plusEquals, "+=")] := by
    simp only [List.mem_cons, List.not_mem_nil, or_false] at hop
    rcases hop with rfl | rfl
    · exact ⟨.equals, .inl rfl, by decide⟩
    · exact ⟨.plusEquals, .inr rfl, by decide⟩
  obtain ⟨kind, hsign, hmem⟩ := hkind
  have hxderives := hx.derives.loosen (Nat.zero_le _)
  refine ⟨xs ++ ⟨kind, op⟩ :: ys, reads_assignment hmem hx.reads hy.reads, ⟨by simp, ?_⟩, ?_, ?_,
    ?_⟩
  · simp only [List.forall_mem_append, List.forall_mem_cons]
    refine ⟨hx.derives.isInner, ?_, hy.derives.isInner⟩
    rcases hsign with rfl | rfl <;> simp [IsInner]
  · intro hopens
    refine .assign hxderives hsign hy.derives fun hstarts => ?_
    have hopens' := (hx.opens.mp hstarts).2
    rw [Node.opensLoad, hopens'] at hopens
    cases hopens
  · intro hopens
    refine ⟨(startsLoad_append hx.ne_nil).mpr (.inl ?_), rfl⟩
    exact hx.opens.mpr ⟨Printed.standsFree_self target, hopens⟩
  · have hparen : kind ≠ .lparen := by rcases hsign with rfl | rfl <;> decide
    rw [openings_append, openings_cons_of_ne (s := ⟨kind, op⟩) hparen, hx.opened, hy.opened,
      Strength.brackets_eq_zero (Nat.le_refl _)]
    rfl

/-- The text of a load. -/
theorem StatementPrinted.of_load {s s' : Span} {module : String} {args : List Node}
    {texts : List String} {sss : List (List Symbol)} (hreads : ReadsAll texts sss)
    (hderives : DerivesAll .argument sss (Node.bareAll args))
    (hopenings : openings sss.flatten = Node.openingsAll args) :
    ∃ ss, StatementPrinted (.load s (.string s' module) args)
      ("load(" ++ ", ".intercalate (Literal.written module :: texts) ++ ")") ss := by
  have hstatement : StatementDerives (⟨.identifier, "load"⟩ :: Sequence.arguments.opening ::
      ⟨.string, module⟩ :: (sss.flatMap (comma :: ·) ++ [Sequence.arguments.closing]))
      (.load {} (.string {} module) (Node.bareAll args)) :=
    .load ⟨rfl, rfl⟩ rfl rfl (loadDerives_tail hderives)
  have hload : IsLexeme .identifier "load" := ⟨_, _, _, rfl, rfl, rfl, rfl⟩
  have hopened : openings (⟨.identifier, "load"⟩ :: Sequence.arguments.opening ::
      ⟨.string, module⟩ :: (sss.flatMap (comma :: ·) ++ [Sequence.arguments.closing])) =
      (Node.load s (.string s' module) args).openings := by
    rw [openings_cons_of_ne (by decide), openings_cons_of_eq rfl,
      openings_cons_of_ne (s := ⟨.string, module⟩) (by simp), openings_append,
      openings_commaInFront, hopenings, openings_closing, Node.openings, Node.openings]
    omega
  refine ⟨_, fun depth rest _ => ?_, hstatement.isInner, fun _ => hstatement,
    fun hopens => (by cases hopens), hopened⟩
  have hsequence := lexes_inline (.cons (reads_written module) hreads) .arguments depth rest
  have hname := reads_of_isLexeme hload (by decide) depth
    ('(' :: ((", ".intercalate (Literal.written module :: texts)).toList ++ ')' :: rest))
    (separate_mark (by decide) (by decide) _)
  have hwhole := hname.trans (by simpa [Sequence.opening, Sequence.closing] using hsequence)
  simpa [joined, Sequence.opening, Sequence.closing] using hwhole

theorem Node.Expressible.isLoad_eq_false {allowed : String → Prop} {node : Node}
    (h : Expressible allowed .value node) : node.isLoad = false := by
  cases h <;> rfl

/-- **Every statement that can be spelled is printed.** -/
theorem Node.IsStatement.printed {options : LayoutOptions}
    (hindent : ∀ c ∈ options.indent.toList, c = ' ' ∨ c = '\t') {node : Node}
    (h : IsStatement Free node) (level : Nat) :
    ∃ text ss, node.render options level = .ok text ∧ StatementPrinted node text ss := by
  cases h with
  | load hargs =>
    obtain ⟨texts, sss, htexts, hreads, hderives, hopenings⟩ :=
      renderAll_of_writes (c := .argument) (fun n hn => (hargs n hn).laysOut hindent) level
    obtain ⟨ss, hprinted⟩ := StatementPrinted.of_load hreads hderives hopenings
    exact ⟨_, ss, by rw [Node.render, Node.render, htexts]; rfl, hprinted⟩
  | value h =>
    obtain ⟨text, ss, htext, hprinted⟩ := Node.Expressible.laysOut hindent h level
    exact ⟨text, ss, htext, .of_value hprinted h.isLoad_eq_false⟩
  | assign hop htarget hvalue =>
    obtain ⟨x, xs, hx, hxprinted⟩ := Node.Expressible.laysOut hindent htarget level
    obtain ⟨y, ys, hy, hywritten⟩ :=
      Prints.writes (Node.Expressible.laysOut hindent hvalue) level
    obtain ⟨ss, hprinted⟩ := StatementPrinted.of_assign hop hxprinted hywritten
    exact ⟨_, ss, by rw [Node.render, hx, hy]; rfl, hprinted⟩

/-! ### The symbols of files -/

/-- The symbols of statements, with separators in front of each and behind the last, and of the end
of the file. -/
inductive FileSymbols : List Node → List Symbol → Prop
  /-- No statement. -/
  | stop {seps : List Symbol} (hseps : ∀ s ∈ seps, Separates s) :
      FileSymbols [] (seps ++ [⟨.endOfFile, ""⟩])
  /-- A statement, and what follows it. -/
  | statement {node : Node} {nodes : List Node} {text : String} {seps ss ts : List Symbol}
      (hseps : ∀ s ∈ seps, Separates s) (h : StatementPrinted node text ss)
      (hends : ∀ s ∈ ts.head?, ¬ IsInner s) (hmore : FileSymbols nodes ts) :
      FileSymbols (node :: nodes) (seps ++ (ss ++ ts))

/-- Tokens that start like a load are read as one, if at all. -/
theorem isLoad_of_yields_statement {used rest : List Token} {v : Node} {out : List Token}
    (hstarts : StartsLoad (used.map Token.symbol)) (h : Yields (statement (used ++ rest)) v out) :
    v.isLoad = true := by
  match used with
  | [] => exact hstarts.elim
  | [t] => exact hstarts.elim
  | t :: u :: used =>
    obtain ⟨-, ⟨_, _, _, _, hload⟩ | ⟨hnext, -⟩⟩ := yields_statement_cons.mp h
    · obtain ⟨_, _, _, _, _, _, rfl⟩ := yields_load.mp hload
      rfl
    · exact absurd hstarts (hnext u rfl)

theorem Node.isLoad_bare (node : Node) : node.bare.isLoad = node.isLoad := by
  cases node <;> rfl

theorem endsStatement_of_not_isInner {t : Token} (h : ¬ IsInner t.symbol)
    (hcomment : t.kind ≠ .comment) : endsStatement t = true := by
  simp only [IsInner, not_not, Token.kind_symbol, List.mem_cons, List.not_mem_nil, or_false] at h
  simp only [endsStatement, decide_eq_true_eq]
  rcases h with h | h | h | h
  · exact .inl h
  · exact .inr (.inl h)
  · exact absurd h hcomment
  · exact .inr (.inr h)

theorem FileSymbols.kind_ne_comment {nodes : List Node} {ss : List Symbol}
    (h : FileSymbols nodes ss) : ∀ s ∈ ss, s.kind ≠ .comment := by
  have hseps : ∀ {seps : List Symbol}, (∀ s ∈ seps, Separates s) →
      ∀ s ∈ seps, s.kind ≠ .comment := by
    intro seps hseps s hs
    rcases hseps s hs with hsep | hsep <;> simp [hsep]
  induction h with
  | stop hsep => exact List.forall_mem_append.mpr ⟨hseps hsep, by simp⟩
  | statement hsep h _ _ ih =>
    simp only [List.forall_mem_append]
    exact ⟨hseps hsep, fun s hs => (h.inner.2 s hs).kind_ne_comment, ih⟩

/-- **Statements come back exactly if none of them starts like a load by accident.** -/
theorem FileSymbols.statements_iff {nodes : List Node} {ss : List Symbol}
    (h : FileSymbols nodes ss) : ∀ ts : List Token, ts.map Token.symbol = ss →
      ((∃ r, statements ts = .ok r ∧ Node.bareAll r.1 = Node.bareAll nodes) ↔
        ∀ node ∈ nodes, node.opensLoad = false) := by
  have hcomment := h.kind_ne_comment
  induction h with
  | stop hseps =>
    intro ts hts
    obtain ⟨useps, _, rfl, rfl, hts'⟩ := List.map_eq_append_iff.mp hts
    obtain ⟨stop, rfl, hstop⟩ := List.map_eq_singleton_iff.mp hts'
    have hend : stop.kind = .endOfFile := by rw [← Token.kind_symbol, hstop]
    rw [statements_separators _ hseps]
    refine iff_of_true ⟨([], some stop), ?_, rfl⟩ (by simp)
    rw [statements_cons_eq_ok_iff, if_neg (by simp [hend]), if_pos hend]
  | @statement node nodes text seps ss us hseps hprinted hends _ ih =>
    intro ts hts
    obtain ⟨useps, _, rfl, rfl, hts'⟩ := List.map_eq_append_iff.mp hts
    obtain ⟨used, rest, rfl, rfl, rfl⟩ := List.map_eq_append_iff.mp hts'
    have hrest : ∀ t ∈ rest.head?, endsStatement t := by
      intro t ht
      refine endsStatement_of_not_isInner (hends _ ?_) (hcomment t.symbol ?_)
      · rw [List.head?_map, Option.mem_def.mp ht]
        rfl
      · have hmem := List.mem_map_of_mem (f := Token.symbol) (List.mem_of_mem_head? ht)
        exact List.mem_append_right _ (List.mem_append_right _ hmem)
    have ih := ih (fun s hs => hcomment s (List.mem_append_right _ (List.mem_append_right _ hs)))
      rest rfl
    have hinner : used ≠ [] ∧ ∀ s ∈ used.map Token.symbol, IsInner s :=
      ⟨fun heq => hprinted.inner.1 (by rw [heq]; rfl), hprinted.inner.2⟩
    rw [statements_separators _ hseps, List.forall_mem_cons]
    cases hopens : node.opensLoad with
    | true =>
      obtain ⟨hstarts, hload⟩ := hprinted.opens hopens
      refine iff_of_false ?_ (by simp)
      rintro ⟨r, hr, hbare⟩
      obtain ⟨x, mid, hx, -, more, -, rfl⟩ := (statements_statement_eq_ok_iff hinner).mp hr
      -- what was read is a load, and the statement is none
      have hxload := isLoad_of_yields_statement hstarts hx
      obtain ⟨hbare, -⟩ := List.cons.inj hbare
      rw [← Node.isLoad_bare, hbare, Node.isLoad_bare, hload] at hxload
      cases hxload
    | false =>
      obtain ⟨x, hxbare, hx⟩ := (hprinted.derives hopens).complete hrest
      rw [← ih]
      constructor
      · rintro ⟨r, hr, hbare⟩
        obtain ⟨y, mid, hy, -, more, hmore, rfl⟩ := (statements_statement_eq_ok_iff hinner).mp hr
        obtain ⟨rfl, rfl⟩ := hx.unique hy
        exact ⟨rfl, more, hmore, (List.cons.inj hbare).2⟩
      · rintro ⟨-, more, hmore, hbare⟩
        refine ⟨(x :: more.1, more.2), ?_, by simp [hxbare, hbare]⟩
        exact (statements_statement_eq_ok_iff hinner).mpr ⟨x, rest, hx, hrest, more, hmore, rfl⟩

/-- The statements of a file that was read can be spelled, spans left out. -/
theorem isStatement_bare_of_parse {source path : String} {dialect : Option Dialect}
    {f : SourceFile} (h : SourceFile.parse source path dialect = .ok f) :
    ∀ n ∈ Node.bareAll f.statements, n.IsStatement Free := by
  obtain ⟨ts, hts, hf⟩ := parse_eq_ok_iff.mp h
  obtain ⟨r, hr, rfl⟩ := ofTokens_eq_ok_iff.mp hf
  have htokens := tokensOf_of_tokens hts
  have hready := readable_of_tokensOf htokens
  have hderives := statements_sound ts hready.spelled hready.marked hr
  exact hderives.isStatement (genuine_of_tokensOf htokens)

/-- The statements of a file that was read can be spelled. -/
theorem isStatement_of_parse {source path : String} {dialect : Option Dialect} {f : SourceFile}
    (h : SourceFile.parse source path dialect = .ok f) :
    ∀ n ∈ f.statements, n.IsStatement Free := by
  intro n hn
  exact (isStatement_bare_of_parse h _ (Node.exists_mem_bareAll hn)).of_bare n rfl

/-! ### The text of a file -/

/-- The symbol of a line feed. -/
def newline : Symbol := ⟨.newline, "\n"⟩

theorem lexes_newline (cs : List Char) : Lexes 0 ('\n' :: cs) [newline] 0 cs :=
  .symbol (heads_newline cs) rfl .done

/-- A line feed follows a statement, whatever lines stand behind it. -/
theorem separate_lines (lines : List String) :
    Separate (lines.flatMap (fun line => '\n' :: line.toList) ++ ['\n']) := by
  cases lines with
  | nil => exact separate_mark (by decide) (by decide) _
  | cons line lines => exact separate_mark (by decide) (by decide) _

/-- Blank lines are line feeds. -/
theorem lexes_blankLines {lines : List String} (h : ∀ line ∈ lines, line = "") (cs : List Char) :
    Lexes 0 (lines.flatMap (fun line => '\n' :: line.toList) ++ cs) (lines.map fun _ => newline) 0
      cs := by
  induction lines with
  | nil => exact .done
  | cons line lines ih =>
    rw [List.forall_mem_cons] at h
    obtain ⟨rfl, h⟩ := h
    exact (lexes_newline _).trans (ih h)

section

variable {options : LayoutOptions}

theorem between_blank (options : LayoutOptions) (previous next : Node) :
    ∀ line ∈ options.between previous next, line = "" := by
  intro line hline
  unfold LayoutOptions.between at hline
  split at hline
  · cases hline
  · exact List.eq_of_mem_replicate hline

variable (hindent : ∀ c ∈ options.indent.toList, c = ' ' ∨ c = '\t')
include hindent

/-- The lines behind a statement. -/
theorem exists_linesAfter {nodes : List Node} (h : ∀ n ∈ nodes, n.IsStatement Free)
    (previous : Node) : ∃ texts ss, Node.renderAll options 0 nodes = .ok texts ∧
      Lexes 0 ((options.linesAfter previous (nodes.zip texts)).flatMap
        (fun line => '\n' :: line.toList) ++ ['\n']) ss 0 [] ∧
      FileSymbols nodes (ss ++ [⟨.endOfFile, ""⟩]) ∧ ∃ s ts, ss = s :: ts ∧ ¬ IsInner s := by
  induction nodes generalizing previous with
  | nil =>
    refine ⟨[], [newline], rfl, lexes_newline [], .stop ?_, newline, [], rfl, ?_⟩
    · simp [Separates, newline]
    · simp [IsInner, newline]
  | cons node nodes ih =>
    rw [List.forall_mem_cons] at h
    obtain ⟨text, ss, htext, hprinted⟩ := h.1.printed hindent 0
    obtain ⟨texts, us, htexts, hlexes, hsymbols, s, ts, rfl, hs⟩ := ih h.2 node
    have hsep := separate_lines (options.linesAfter node (nodes.zip texts))
    have hblank := lexes_blankLines (between_blank options previous node)
    have hwhole := (hblank _).trans ((lexes_newline _).trans
      ((hprinted.reads 0 _ hsep).trans hlexes))
    let seps := (options.between previous node).map (fun _ => newline) ++ [newline]
    have hseps : ∀ s ∈ seps, Separates s := by
      simp only [seps, List.forall_mem_append, List.forall_mem_map]
      exact ⟨fun _ _ => .inl rfl, by simp [Separates, newline]⟩
    have hfile := FileSymbols.statement hseps hprinted
      (by simpa using hs) hsymbols
    refine ⟨text :: texts, seps ++ (ss ++ (s :: ts)), ?_, ?_, by simpa using hfile, ?_⟩
    · rw [Node.renderAll, htext, htexts]
      rfl
    · simpa [LayoutOptions.linesAfter, seps] using hwhole
    · have hnewline : ¬ IsInner newline := by simp [IsInner, newline]
      cases hbetween : options.between previous node with
      | nil => exact ⟨newline, _, by simp [seps, hbetween]; rfl, hnewline⟩
      | cons line lines => exact ⟨newline, _, by simp [seps, hbetween]; rfl, hnewline⟩

/-- The text of a file is read as the symbols of its statements. -/
theorem exists_render {f : SourceFile} (h : ∀ n ∈ f.statements, n.IsStatement Free) :
    ∃ text ss, f.render options = .ok text ∧ Lexes 0 text.toList ss 0 [] ∧
      FileSymbols f.statements (ss ++ [⟨.endOfFile, ""⟩]) := by
  unfold SourceFile.render
  cases hnodes : f.statements with
  | nil => exact ⟨"", [], rfl, .done, .stop (by simp)⟩
  | cons node nodes =>
    rw [hnodes, List.forall_mem_cons] at h
    obtain ⟨text, ss, htext, hprinted⟩ := h.1.printed hindent 0
    obtain ⟨texts, us, htexts, hlexes, hsymbols, s, ts, rfl, hs⟩ :=
      exists_linesAfter hindent h.2 node
    have hsep := separate_lines (options.linesAfter node (nodes.zip texts))
    have hfile : FileSymbols (node :: nodes) ([] ++ (ss ++ (s :: ts ++ [⟨.endOfFile, ""⟩]))) :=
      .statement (by simp) hprinted (by simpa using hs) hsymbols
    have hwhole := (hprinted.reads 0 _ hsep).trans hlexes
    refine ⟨"\n".intercalate (text :: options.linesAfter node (nodes.zip texts)) ++ "\n",
      ss ++ (s :: ts), ?_, ?_, by simpa using hfile⟩
    · rw [Node.renderAll, htext, htexts]
      rfl
    · rw [String.toList_append, toList_intercalate_cons]
      simpa using hwhole

/-- **The statements of a file come back from its text exactly if none of them starts like a load by
accident.** -/
theorem render_iff {f : SourceFile} (h : ∀ n ∈ f.statements, n.IsStatement Free) :
    ∃ text, f.render options = .ok text ∧ ∀ path dialect,
      ((∃ g, SourceFile.parse text path dialect = .ok g ∧
          Node.bareAll g.statements = Node.bareAll f.statements) ↔
        ∀ n ∈ f.statements, n.opensLoad = false) := by
  obtain ⟨text, ss, htext, hlexes, hsymbols⟩ := exists_render hindent h
  have hcomment : ∀ s ∈ ss, s.kind ≠ .comment :=
    fun s hs => hsymbols.kind_ne_comment s (List.mem_append_left _ hs)
  obtain ⟨ts, hts, heq⟩ := hlexes.tokens_eq_ok hcomment
  refine ⟨text, htext, fun path dialect => ?_⟩
  rw [← hsymbols.statements_iff ts heq]
  constructor
  · rintro ⟨g, hg, hbare⟩
    obtain ⟨us, hus, hg⟩ := parse_eq_ok_iff.mp hg
    rw [hts] at hus
    cases hus
    obtain ⟨r, hr, rfl⟩ := ofTokens_eq_ok_iff.mp hg
    exact ⟨r, hr, hbare⟩
  · rintro ⟨r, hr, hbare⟩
    exact ⟨_, parse_eq_ok_iff.mpr ⟨ts, hts, ofTokens_eq_ok_iff.mpr ⟨r, hr, rfl⟩⟩, hbare⟩

end

/-- The indentation that is laid out by default is blank. -/
theorem indent_default_blank :
    ∀ c ∈ ({} : LayoutOptions).indent.toList, c = ' ' ∨ c = '\t' := by
  simp

/-- **Statements that can be spelled but for their names come back from a text exactly if none of
them starts like a load by accident and none uses a reserved name.** -/
theorem render_anyName_iff {f : SourceFile} (h : ∀ n ∈ f.statements, n.IsStatement Node.AnyName)
    {text : String} (htext : f.render = .ok text) (path : String) (dialect : Option Dialect) :
    (∃ g, SourceFile.parse text path dialect = .ok g ∧
        Node.bareAll g.statements = Node.bareAll f.statements) ↔
      ∀ n ∈ f.statements, n.opensLoad = false ∧ ∀ name ∈ n.usedNames, name ∉ reservedWords := by
  have hiff : (∀ n ∈ f.statements, n.IsStatement Free) → ((∃ g,
      SourceFile.parse text path dialect = .ok g ∧
        Node.bareAll g.statements = Node.bareAll f.statements) ↔
          ∀ n ∈ f.statements, n.opensLoad = false) := by
    intro hfree
    obtain ⟨text', htext', hiff⟩ := render_iff indent_default_blank hfree
    rw [htext] at htext'
    cases htext'
    exact hiff path dialect
  constructor
  · intro hback
    have hfree : ∀ n ∈ f.statements, n.IsStatement Free := by
      obtain ⟨g, hg, hbare⟩ := hback
      -- what was read uses no reserved names, and it is the same apart from the spans
      intro n hn
      have hn := Node.exists_mem_bareAll hn
      rw [← hbare] at hn
      exact (isStatement_bare_of_parse hg _ hn).of_bare n rfl
    exact fun n hn => ⟨(hiff hfree).mp hback n hn, (hfree n hn).allowed⟩
  · intro hcond
    exact (hiff fun n hn => (h n hn).restrict (hcond n hn).2).mpr fun n hn => (hcond n hn).1

end StarlarkLint
