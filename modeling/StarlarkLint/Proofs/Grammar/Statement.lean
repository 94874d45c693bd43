import StarlarkLint.Proofs.Grammar.Placement

/-!
# Where statements stand

The derivations of statements and files over tokens with their places, for trees with their spans.
The tokens of a file are those of its statements with separators in between, and the mark of the
end; so what is said of values by their derivations is said of a file statement by statement.

## Main definitions

* `Grammar.LoadPlaced`, `Grammar.StatementPlaced`, `Grammar.FilePlaced` — the derivations of loads,
  statements and files with their spans.

## Main results

* `Grammar.StatementPlaced.derives`, `Grammar.FilePlaced.derives` — apart from places these are the
  derivations of the grammar.
* `Grammar.StatementPlaced.value_mem` — the values in a statement are derived from stretches of its
  tokens.
-/

namespace StarlarkLint.Grammar

/-- The arguments of a load with their places, from behind the module on, and the span of the
closing parenthesis. -/
inductive LoadPlaced : List Token → Span → List Node → Prop
  /-- No further arguments. -/
  | close {closing : Token} (hclosing : closing.kind = .rparen) :
      LoadPlaced [closing] closing.span []
  /-- No further arguments, behind a comma. -/
  | closeBehindComma {comma closing : Token} (hcomma : comma.kind = .comma)
      (hclosing : closing.kind = .rparen) : LoadPlaced [comma, closing] closing.span []
  /-- A comma and an argument. -/
  | more {comma : Token} {ts us : List Token} {n : Node} {ns : List Node} {closing : Span}
      (hcomma : comma.kind = .comma) (h : Placed .argument ts n)
      (hmore : LoadPlaced us closing ns) : LoadPlaced (comma :: (ts ++ us)) closing (n :: ns)

/-- The derivations of a statement, with places. -/
inductive StatementPlaced : List Token → Node → Prop
  /-- A load of a module. -/
  | load {name opening module : Token} {ts : List Token} {args : List Node} {closing : Span}
      (hname : name.kind = .identifier ∧ name.value = "load") (hopening : opening.kind = .lparen)
      (hmodule : module.kind = .string) (hargs : LoadPlaced ts closing args) :
      StatementPlaced (name :: opening :: module :: ts)
        (.load ⟨name.span.start, closing.stop⟩ (.string module.span module.value) args)
  /-- A value that does not read as a load. -/
  | value {ts : List Token} {n : Node} (h : Placed (.value 0) ts n)
      (hload : ¬ StartsLoad (ts.map Token.symbol)) : StatementPlaced ts n
  /-- An assignment to a value that does not read as a load. -/
  | assign {xs ys : List Token} {x y : Node} {sign : Token} (hx : Placed (.value 0) xs x)
      (hsign : sign.kind = .equals ∨ sign.kind = .plusEquals) (hy : Placed (.value 0) ys y)
      (hload : ¬ StartsLoad (xs.map Token.symbol)) :
      StatementPlaced (xs ++ sign :: ys) (.assign ⟨x.span.start, y.span.stop⟩ x sign.value y)

/-- The derivations of a file, with places. -/
inductive FilePlaced : List Token → List Node → Prop
  /-- The end. -/
  | stop {t : Token} (hstop : t.kind = .endOfFile) : FilePlaced [t] []
  /-- A separator. -/
  | separator {t : Token} {ts : List Token} {ns : List Node} (hsep : Separates t.symbol)
      (h : FilePlaced ts ns) : FilePlaced (t :: ts) ns
  /-- A statement, and what may stand behind it. -/
  | statement {ts us : List Token} {n : Node} {ns : List Node} (h : StatementPlaced ts n)
      (hends : ∀ t ∈ us.head?, endsStatement t) (hmore : FilePlaced us ns) :
      FilePlaced (ts ++ us) (n :: ns)

/-! ### Apart from places -/

theorem LoadPlaced.derives {ts : List Token} {closing : Span} {ns : List Node}
    (h : LoadPlaced ts closing ns) : LoadDerives (ts.map Token.symbol) (Node.bareAll ns) := by
  induction h with
  | close hclosing => exact .close hclosing
  | closeBehindComma hcomma hclosing => exact .closeBehindComma hcomma hclosing
  | more hcomma h _ ih =>
    rw [List.map_cons, List.map_append]
    exact .more hcomma h.derives ih

/-- Apart from places the derivations of statements are those of the grammar. -/
theorem StatementPlaced.derives {ts : List Token} {n : Node} (h : StatementPlaced ts n) :
    StatementDerives (ts.map Token.symbol) n.bare := by
  cases h with
  | load hname hopening hmodule hargs => exact .load hname hopening hmodule hargs.derives
  | value h hload => exact .value h.derives hload
  | assign hx hsign hy hload =>
    rw [List.map_append]
    exact .assign hx.derives hsign hy.derives hload

theorem kind_ne_endOfFile_of_isInner {used : List Token}
    (h : ∀ s ∈ used.map Token.symbol, IsInner s) : ∀ t ∈ used, t.kind ≠ .endOfFile :=
  fun t ht => (h t.symbol (List.mem_map_of_mem ht)).kind_ne_endOfFile

/-- No statement holds the mark of the end. -/
theorem StatementPlaced.kind_ne_endOfFile {ts : List Token} {n : Node} (h : StatementPlaced ts n) :
    ∀ t ∈ ts, t.kind ≠ .endOfFile :=
  kind_ne_endOfFile_of_isInner h.derives.isInner.2

theorem not_isInner_of_endsStatement {t : Token} (h : endsStatement t) : ¬ IsInner t.symbol := by
  intro hinner
  refine hinner ?_
  simp only [endsStatement, decide_eq_true_eq] at h
  rcases h with h | h | h <;> simp [h]

/-- A separator in front of a file makes no difference. -/
theorem FileDerives.cons {s : Symbol} {ss : List Symbol} {ns : List Node} (hs : Separates s)
    (h : FileDerives ss ns) : FileDerives (s :: ss) ns := by
  cases h with
  | mk hseps hblock hstop =>
    rw [← List.cons_append]
    exact .mk (List.forall_mem_cons.mpr ⟨hs, hseps⟩) hblock hstop

/-- A statement in front of a file that starts with a separator, or is empty. -/
theorem StatementDerives.append_file {ss ts : List Symbol} {n : Node} {ns : List Node}
    (h : StatementDerives ss n) (hts : ∀ s ∈ ts.head?, ¬ IsInner s) (hfile : FileDerives ts ns) :
    FileDerives (ss ++ ts) (n :: ns) := by
  cases hfile with
  | @mk seps us _ stop hseps hblock hstop =>
    cases seps with
    | nil =>
      rcases hblock.eq_nil_or_isInner with ⟨rfl, rfl⟩ | ⟨s, us, rfl, hs⟩
      · exact .of_block (.last h) hstop
      · exact absurd hs (hts s rfl)
    | cons sep seps =>
      have hmore := BlockDerives.more h (by simp) hseps hblock
      simpa using FileDerives.of_block hmore hstop

/-- **Apart from places the derivations of files are those of the grammar.** -/
theorem FilePlaced.derives {ts : List Token} {ns : List Node} (h : FilePlaced ts ns) :
    FileDerives (ts.map Token.symbol) (Node.bareAll ns) := by
  induction h with
  | stop hstop => exact .of_block .none hstop
  | separator hsep _ ih => exact ih.cons hsep
  | statement h hends _ ih =>
    rw [List.map_append]
    refine h.derives.append_file (fun s hs => ?_) ih
    rw [List.head?_map] at hs
    obtain ⟨u, hu, rfl⟩ := Option.map_eq_some_iff.mp hs
    exact not_isInner_of_endsStatement (hends u hu)

/-! ### The values in a statement -/

theorem LoadPlaced.value_mem {ts : List Token} {closing : Span} {ns : List Node}
    (h : LoadPlaced ts closing ns) (hts : StarsSpelled ts) :
    ∀ m ∈ Node.valuesAll ns, StandsIn ts m := by
  induction h with
  | close _ => exact fun m hm => absurd hm List.not_mem_nil
  | closeBehindComma _ _ => exact fun m hm => absurd hm List.not_mem_nil
  | @more comma ts us n ns closing hcomma h hmore ih =>
    intro m hm
    rcases List.mem_append.mp hm with hm | hm
    · exact standsIn_of_part ⟨[comma], us, rfl⟩ hts h.value_mem m hm
    · exact standsIn_of_part (List.suffix_append (comma :: ts) us).isInfix hts ih m hm

/-- **Every value in a statement is derived from a stretch of its tokens.** -/
theorem StatementPlaced.value_mem {ts : List Token} {n : Node} (h : StatementPlaced ts n)
    (hts : StarsSpelled ts) : ∀ m ∈ n.statementValues, StandsIn ts m := by
  cases h with
  | @load name opening module ts args closing _ _ _ hargs =>
    exact standsIn_of_part (List.suffix_append [name, opening, module] ts).isInfix hts
      hargs.value_mem
  | value h _ =>
    rw [h.statementValues_eq]
    exact h.value_mem hts
  | @assign xs ys x y sign hx _ hy _ =>
    intro m hm
    rcases List.mem_append.mp hm with hm | hm
    · exact standsIn_of_part (List.prefix_append xs _).isInfix hts hx.value_mem m hm
    · exact standsIn_of_part ⟨xs ++ [sign], [], by simp⟩ hts hy.value_mem m hm

end StarlarkLint.Grammar
