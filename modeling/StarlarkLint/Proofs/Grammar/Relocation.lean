import StarlarkLint.Proofs.Grammar.Soundness
import StarlarkLint.Proofs.Node.Moved

/-!
# Tokens in another place

What is read depends on the tokens that are read and on nothing else: not on where they stand, and
not on what follows the token that ends the statement.  Two lists of tokens are alike when they
agree, but for places, up to such an end.  Every reader that succeeds on the one succeeds on the
other, with the same tree moved, and leaves tokens that are alike again.

## Main definitions

* `Grammar.Ends` — a statement ends in front of the tokens.
* `Grammar.Alike` — the tokens agree up to the end of a statement, but for places.

## Main results

* `Grammar.expression_alike`, `Grammar.statement_alike` — values and statements.
* `Grammar.statements_append`, `Grammar.statements_moved` — the statements of two lists of tokens,
  one put in front of the other, and of a list that is moved.
-/

namespace StarlarkLint.Grammar

/-- A statement ends in front of the tokens: there are none, or the first may stand behind a
statement. -/
def Ends (ts : List Token) : Prop := ∀ t ∈ ts.head?, endsStatement t

/-- Two lists of tokens that agree but for places, up to where one goes on as `xs` and the other as
`ys`; neither goes on with a statement. -/
inductive Alike (move : Position → Position) (xs ys : List Token) :
    List Token → List Token → Prop
  /-- Nothing is left to agree on. -/
  | stop (hxs : Ends xs) (hys : Ends ys) : Alike move xs ys xs ys
  /-- A token that does not mark the end of a text. -/
  | token {t : Token} {ts us : List Token} (ht : t.kind ≠ .endOfFile)
      (h : Alike move xs ys ts us) : Alike move xs ys (t :: ts) (t.moved move :: us)

section

variable {move : Position → Position} {xs ys ts us : List Token}

theorem alike_append (hxs : Ends xs) (hys : Ends ys) (h : ∀ t ∈ ts, t.kind ≠ .endOfFile) :
    Alike move xs ys (ts ++ xs) (ts.map (Token.moved move) ++ ys) := by
  induction ts with
  | nil => exact .stop hxs hys
  | cons t ts ih =>
    rw [List.forall_mem_cons] at h
    exact .token h.1 (ih h.2)

/-! ### Looking ahead -/

theorem kind_cases_of_endsStatement {t : Token} (h : endsStatement t) :
    t.kind = .newline ∨ t.kind = .semicolon ∨ t.kind = .endOfFile := by
  simpa [endsStatement] using h

theorem Ends.kind_cases {t : Token} (h : Ends (t :: ts)) :
    t.kind = .newline ∨ t.kind = .semicolon ∨ t.kind = .endOfFile :=
  kind_cases_of_endsStatement (h t rfl)

/-- The lists agree on the next token, unless a statement ends in front of both of them. -/
theorem Alike.ends_or_exists_cons {t : Token} {rest : List Token}
    (h : Alike move xs ys (t :: rest) us) : (Ends (t :: rest) ∧ Ends us) ∨
      ∃ rest', us = t.moved move :: rest' ∧ Alike move xs ys rest rest' := by
  generalize hts : t :: rest = ts at h
  cases h with
  | stop hxs hys => exact .inl ⟨hxs, hys⟩
  | token _ h =>
    cases hts
    exact .inr ⟨_, rfl, h⟩

theorem Alike.ends_of_nil (h : Alike move xs ys [] us) : Ends us := by
  cases h with
  | stop _ hys => exact hys

/-- Where a token stands that ends no statement, the lists agree on it. -/
theorem Alike.exists_cons_of_kind {t : Token} {rest : List Token}
    (h : Alike move xs ys (t :: rest) us) (ht : endsStatement t = false) :
    ∃ rest', us = t.moved move :: rest' ∧ Alike move xs ys rest rest' := by
  rcases h.ends_or_exists_cons with ⟨hends, -⟩ | hcons
  · have hend : endsStatement t := hends t rfl
    rw [ht] at hend
    cases hend
  · exact hcons

/-- What ends a statement has the same effect on a look at the next token. -/
theorem Alike.forall_head? (h : Alike move xs ys ts us) {p : Token → Prop}
    (hends : ∀ t, endsStatement t → p t) (hmoved : ∀ t, p t → p (t.moved move))
    (hts : ∀ t ∈ ts.head?, p t) : ∀ t ∈ us.head?, p t := by
  cases h with
  | stop _ hys => exact fun t ht => hends t (hys t ht)
  | token _ _ =>
    rintro _ ⟨⟩
    exact hmoved _ (hts _ rfl)

theorem Ends.binary?_eq_none {t : Token} {rest : List Token} (h : Ends (t :: rest)) :
    Operator.binary? t rest = none := by
  rcases h.kind_cases with h | h | h <;> simp [Operator.binary?, h, Operator.signKinds]

theorem Ends.startsWithIn_eq_false (h : Ends ts) : Operator.startsWithIn ts = false := by
  cases ts with
  | nil => rfl
  | cons t rest => rcases h.kind_cases with h | h | h <;> simp [Operator.startsWithIn, h]

/-- The operator that a token spells is the same. -/
theorem Alike.binary?_eq (h : Alike move xs ys ts us) (t : Token) :
    Operator.binary? (t.moved move) us = Operator.binary? t ts := by
  have hin : Operator.startsWithIn us = Operator.startsWithIn ts := by
    cases h with
    | stop hxs hys => rw [hxs.startsWithIn_eq_false, hys.startsWithIn_eq_false]
    | token _ _ => rfl
  unfold Operator.binary?
  rw [hin]
  rfl

/-- Tokens that end no statement belong to what the lists agree on. -/
theorem Alike.exists_append {used rest : List Token} (h : Alike move xs ys (used ++ rest) us)
    (hused : ∀ t ∈ used, endsStatement t = false) :
    ∃ us', us = used.map (Token.moved move) ++ us' ∧ Alike move xs ys rest us' := by
  induction used generalizing us with
  | nil => exact ⟨us, rfl, h⟩
  | cons t used ih =>
    rw [List.forall_mem_cons] at hused
    obtain ⟨us, rfl, hus⟩ := h.exists_cons_of_kind hused.1
    obtain ⟨us', rfl, hrest⟩ := ih hus hused.2
    exact ⟨us', rfl, hrest⟩

theorem Spells.length_eq {os : List Symbol} {op : String} (h : Spells os op) :
    os.length = Operator.width op := by
  cases h with
  | @sign s hsign =>
    have hone : ∀ s ∈ signs, Operator.width s.value = 1 := by decide
    exact (hone s hsign).symm
  | @word s _ hvalue =>
    have hone : ∀ word ∈ ["and", "or", "in"], Operator.width word = 1 := by decide
    exact (hone _ hvalue).symm
  | notIn => rfl

theorem endsStatement_eq_false {t : Token} (h : IsInner t.symbol) : endsStatement t = false := by
  rw [← Bool.not_eq_true]
  exact fun hend => not_isInner_of_endsStatement hend h

/-- Behind the tokens of an operator the lists are alike. -/
theorem Alike.drop_width (h : Alike move xs ys ts us) {t : Token} {op : String}
    (hts : SignsSpelled (t :: ts)) (hop : Operator.binary? t ts = some op) :
    Alike move xs ys (ts.drop (Operator.width op - 1)) (us.drop (Operator.width op - 1)) := by
  obtain ⟨os, heq, hspells⟩ := spells_of_binary? hts hop
  have hlength : os.length = Operator.width op - 1 := by
    simp [← hspells.length_eq]
  rw [heq] at h
  obtain ⟨us', rfl, hrest⟩ := h.exists_append fun u hu =>
    endsStatement_eq_false (hspells.isInner u.symbol (.tail _ (List.mem_map_of_mem hu)))
  have hdrop : (os.map (Token.moved move) ++ us').drop (Operator.width op - 1) = us' :=
    List.drop_left' (by rw [List.length_map, hlength])
  rwa [hdrop]

theorem Ends.takeWhile_string (h : Ends ts) : ts.takeWhile (·.kind = .string) = [] := by
  cases ts with
  | nil => rfl
  | cons t rest => rcases h.kind_cases with h | h | h <;> simp [h]

/-- The strings that follow are the same, and behind them the lists are alike. -/
theorem Alike.strings (h : Alike move xs ys ts us) :
    us.takeWhile (·.kind = .string) =
        (ts.takeWhile (·.kind = .string)).map (Token.moved move) ∧
      Alike move xs ys (ts.drop (ts.takeWhile (·.kind = .string)).length)
        (us.drop (us.takeWhile (·.kind = .string)).length) := by
  induction h with
  | stop hxs hys =>
    rw [hxs.takeWhile_string, hys.takeWhile_string]
    exact ⟨rfl, .stop hxs hys⟩
  | @token t ts us ht h ih =>
    by_cases hkind : t.kind = .string
    · simpa [hkind] using ih
    · simpa [hkind] using h.token ht

/-- Strings that are joined are moved together. -/
theorem joinStrings_moved (t : Token) (more : List Token) :
    (joinStrings t more).moved move =
      joinStrings (t.moved move) (more.map (Token.moved move)) := by
  simp only [joinStrings, Node.moved, Span.moved, List.map_map, Function.comp_def,
    Token.value_moved, Token.span_moved]
  congr 2
  cases more using List.reverseRecOn with
  | nil => rfl
  | append_singleton more u => simp [Span.moved]

/-! ### Values -/

/-- No value starts where a statement ends. -/
theorem Located.not_ends {c : Category} {n : Node} {out : List Token} (h : Located c ts n out) :
    ¬ Ends ts := by
  obtain ⟨used, rfl, hp⟩ := h
  cases used with
  | nil => exact absurd rfl hp.ne_nil
  | cons t used =>
    intro hends
    have hinner := hp.derives.isInner t.symbol List.mem_cons_self
    exact not_isInner_of_endsStatement (hends t rfl) hinner

/-- Where a value starts, the lists agree on the next token. -/
theorem Alike.exists_cons {c : Category} {n : Node} {t : Token} {rest out : List Token}
    (h : Alike move xs ys (t :: rest) us) (hlocated : Located c (t :: rest) n out) :
    ∃ rest', us = t.moved move :: rest' ∧ Alike move xs ys rest rest' := by
  rcases h.ends_or_exists_cons with ⟨hends, -⟩ | hcons
  · exact absurd hends hlocated.not_ends
  · exact hcons

theorem Located.span_moved (move : Position → Position) {c : Category} {n : Node} {out : List Token}
    (h : Located c ts n out) : (n.moved move).span = n.span.moved move := by
  obtain ⟨used, -, hp⟩ := h
  exact Node.span_moved move hp.ne_hole

/-- Signs are spelled in what is left. -/
theorem Located.spelled {c : Category} {n : Node} {out : List Token} (h : Located c ts n out)
    (hts : SignsSpelled ts) : SignsSpelled out := by
  obtain ⟨used, rfl, -⟩ := h
  exact hts.tail used

theorem Ends.yields_operation (h : Ends ts) (level : Nat) (left : Node) :
    Yields (operation level left ts) left ts := by
  cases ts with
  | nil => exact yields_operation_nil.mpr ⟨rfl, rfl⟩
  | cons t rest =>
    refine yields_operation_cons.mpr (.inr ⟨fun op hop => ?_, rfl, rfl⟩)
    rw [h.binary?_eq_none] at hop
    cases hop

theorem Ends.yields_postfixes (h : Ends ts) (base : Node) :
    Yields (postfixes base ts) base ts := by
  cases ts with
  | nil => exact yields_postfixes_nil.mpr ⟨rfl, rfl⟩
  | cons t rest =>
    rw [yields_postfixes_cons]
    rcases h.kind_cases with h | h | h <;> simp [h]

mutual

theorem expression_alike (level : Nat) (ts us : List Token) (hts : SignsSpelled ts)
    (halike : Alike move xs ys ts us) {v : Node} {out : List Token}
    (h : Yields (expression level ts) v out) :
    ∃ out', Alike move xs ys out out' ∧ Yields (expression level us) (v.moved move) out' := by
  match ts with
  | [] => exact absurd h not_yields_expression_nil
  | t :: rest =>
    obtain ⟨rest', rfl, hrest⟩ := halike.exists_cons (expression_located level _ hts h)
    rw [yields_expression_cons] at h
    split at h
    · next hnot =>
      obtain ⟨x, hx, rfl⟩ := h
      have hspan := (expression_located level rest (hts.tail [t]) hx).span_moved move
      obtain ⟨out', hout, hx'⟩ := expression_alike level rest rest' (hts.tail [t]) hrest hx
      have hnot' : isNot level (t.moved move) := hnot
      refine ⟨out', hout, yields_expression_cons.mpr ?_⟩
      rw [if_pos hnot']
      exact ⟨_, hx', by rw [hspan]; rfl⟩
    · next hnot =>
      have hnot' : ¬ isNot level (t.moved move) := hnot
      split at h
      · next hlt =>
        have hlevel : level < 6 := hlt
        obtain ⟨x, mid, hx, hv⟩ := h
        have hmid : mid.length < rest.length + 1 := hx.shorter
        have hlocated := expression_located (level + 1) (t :: rest) hts hx
        obtain ⟨mid', hmidalike, hx'⟩ := expression_alike (level + 1) (t :: rest) _ hts halike hx
        obtain ⟨out', hout, hv'⟩ := operation_alike level mid mid' (hlocated.spelled hts)
          hmidalike (hlocated.span_moved move) hv
        refine ⟨out', hout, yields_expression_cons.mpr ?_⟩
        rw [if_neg hnot', if_pos hlt]
        exact ⟨_, mid', hx', hv'⟩
      · next hge =>
        obtain ⟨out', hout, hv'⟩ := unary_alike (t :: rest) _ hts halike h
        refine ⟨out', hout, yields_expression_cons.mpr ?_⟩
        rw [if_neg hnot', if_neg hge]
        exact hv'
termination_by 16 * ts.length + (6 - level) + 3

theorem operation_alike (level : Nat) {left : Node} (ts us : List Token) (hts : SignsSpelled ts)
    (halike : Alike move xs ys ts us)
    (hleft : (left.moved move).span = left.span.moved move) {v : Node} {out : List Token}
    (h : Yields (operation level left ts) v out) :
    ∃ out', Alike move xs ys out out' ∧
      Yields (operation level (left.moved move) us) (v.moved move) out' := by
  match ts with
  | [] =>
    obtain ⟨rfl, rfl⟩ := yields_operation_nil.mp h
    exact ⟨us, halike, halike.ends_of_nil.yields_operation level _⟩
  | t :: rest =>
    rcases halike.ends_or_exists_cons with ⟨hends, hends'⟩ | ⟨rest', rfl, hrest⟩
    · obtain ⟨rfl, rfl⟩ := (hends.yields_operation level left).unique h
      exact ⟨us, halike, hends'.yields_operation level _⟩
    rcases yields_operation_cons.mp h with ⟨op, hop, hmem, y, mid, hy, hv⟩ | ⟨hnone, rfl, rfl⟩
    · have hdrop : (rest.drop (Operator.width op - 1)).length ≤ rest.length := by simp
      have hmid := hy.shorter
      have hspelled : SignsSpelled (rest.drop (Operator.width op - 1)) := fun u hu =>
        hts u (List.mem_cons_of_mem t (List.mem_of_mem_drop hu))
      have hlocated := expression_located (level + 1) _ hspelled hy
      obtain ⟨mid', hmidalike, hy'⟩ :=
        expression_alike (level + 1) _ _ hspelled (hrest.drop_width hts hop) hy
      have hspan := hlocated.span_moved move
      obtain ⟨out', hout, hv'⟩ := operation_alike level mid mid' (hlocated.spelled hspelled)
        hmidalike rfl hv
      refine ⟨out', hout, yields_operation_cons.mpr (.inl ⟨op, ?_, hmem, _, mid', hy', ?_⟩)⟩
      · rw [hrest.binary?_eq, hop]
      · rw [hleft, hspan]
        exact hv'
    · refine ⟨_, halike, yields_operation_cons.mpr (.inr ⟨fun op hop => ?_, rfl, rfl⟩)⟩
      rw [hrest.binary?_eq] at hop
      exact hnone op hop
termination_by 16 * ts.length

theorem unary_alike (ts us : List Token) (hts : SignsSpelled ts)
    (halike : Alike move xs ys ts us) {v : Node} {out : List Token}
    (h : Yields (unary ts) v out) :
    ∃ out', Alike move xs ys out out' ∧ Yields (unary us) (v.moved move) out' := by
  match ts with
  | [] => exact absurd h not_yields_unary_nil
  | t :: rest =>
    obtain ⟨rest', rfl, hrest⟩ := halike.exists_cons (unary_located _ hts h)
    rw [yields_unary_cons] at h
    split at h
    · next hsign =>
      obtain ⟨x, hx, rfl⟩ := h
      have hspan := (unary_located rest (hts.tail [t]) hx).span_moved move
      obtain ⟨out', hout, hx'⟩ := unary_alike rest rest' (hts.tail [t]) hrest hx
      refine ⟨out', hout, yields_unary_cons.mpr ?_⟩
      rw [Token.kind_moved, if_pos hsign]
      exact ⟨_, hx', by rw [hspan]; rfl⟩
    · next hsign =>
      obtain ⟨x, mid, hx, hv⟩ := h
      have hmid : mid.length < rest.length + 1 := hx.shorter
      have hlocated := primary_located (t :: rest) hts hx
      obtain ⟨mid', hmidalike, hx'⟩ := primary_alike (t :: rest) _ hts halike hx
      obtain ⟨out', hout, hv'⟩ :=
        postfixes_alike mid mid' (hlocated.spelled hts) hmidalike (hlocated.span_moved move) hv
      refine ⟨out', hout, yields_unary_cons.mpr ?_⟩
      rw [Token.kind_moved, if_neg hsign]
      exact ⟨_, mid', hx', hv'⟩
termination_by 16 * ts.length + 2

theorem postfixes_alike {base : Node} (ts us : List Token) (hts : SignsSpelled ts)
    (halike : Alike move xs ys ts us)
    (hbase : (base.moved move).span = base.span.moved move) {v : Node} {out : List Token}
    (h : Yields (postfixes base ts) v out) :
    ∃ out', Alike move xs ys out out' ∧
      Yields (postfixes (base.moved move) us) (v.moved move) out' := by
  match ts with
  | [] =>
    obtain ⟨rfl, rfl⟩ := yields_postfixes_nil.mp h
    exact ⟨us, halike, halike.ends_of_nil.yields_postfixes _⟩
  | t :: rest =>
    rcases halike.ends_or_exists_cons with ⟨hends, hends'⟩ | ⟨rest', rfl, hrest⟩
    · obtain ⟨rfl, rfl⟩ := (hends.yields_postfixes base).unique h
      exact ⟨us, halike, hends'.yields_postfixes _⟩
    rw [yields_postfixes_cons] at h
    split at h
    · next hdot =>
      obtain ⟨name, behind, rfl, hname, hv⟩ := h
      obtain ⟨behind', rfl, hbehind⟩ :=
        hrest.exists_cons_of_kind (by simp [endsStatement, hname])
      obtain ⟨out', hout, hv'⟩ :=
        postfixes_alike behind behind' (hts.tail [t, name]) hbehind rfl hv
      refine ⟨out', hout, yields_postfixes_cons.mpr ?_⟩
      rw [Token.kind_moved, if_pos hdot]
      refine ⟨_, behind', rfl, hname, ?_⟩
      rw [hbase]
      exact hv'
    · next hdot =>
      split at h
      · next hparen =>
        obtain ⟨args, mid, hargs, hv⟩ := h
        have hmid := hargs.shorter
        have hlocated := sequence_located .arguments rest (hts.tail [t]) hargs
        obtain ⟨mid', hmidalike, hargs'⟩ :=
          sequence_alike .arguments rest rest' (hts.tail [t]) hrest hargs
        obtain ⟨out', hout, hv'⟩ :=
          postfixes_alike mid mid' (hlocated.spelled (hts.tail [t])) hmidalike rfl hv
        refine ⟨out', hout, yields_postfixes_cons.mpr ?_⟩
        rw [Token.kind_moved, if_neg hdot, if_pos hparen]
        refine ⟨_, mid', hargs', ?_⟩
        rw [hbase]
        exact hv'
      · next hparen =>
        obtain ⟨rfl, rfl⟩ := h
        refine ⟨_, halike, yields_postfixes_cons.mpr ?_⟩
        rw [Token.kind_moved, if_neg hdot, if_neg hparen]
        exact ⟨rfl, rfl⟩
termination_by 16 * ts.length

theorem primary_alike (ts us : List Token) (hts : SignsSpelled ts)
    (halike : Alike move xs ys ts us) {v : Node} {out : List Token}
    (h : Yields (primary ts) v out) :
    ∃ out', Alike move xs ys out out' ∧ Yields (primary us) (v.moved move) out' := by
  match ts with
  | [] => exact absurd h not_yields_primary_nil
  | t :: rest =>
    obtain ⟨rest', rfl, hrest⟩ := halike.exists_cons (primary_located _ hts h)
    rw [yields_primary_cons] at h
    simp only [yields_primary_cons, Token.kind_moved]
    split at h
    · next hkind =>
      obtain ⟨hfree, rfl, rfl⟩ := h
      exact ⟨rest', hrest, hfree, rfl, rfl⟩
    · next hkind =>
      obtain ⟨rfl, rfl⟩ := h
      obtain ⟨hmore, hout⟩ := hrest.strings
      refine ⟨_, hout, ?_, rfl⟩
      rw [hmore, joinStrings_moved]
    · next hkind =>
      obtain ⟨rfl, rfl⟩ := h
      exact ⟨rest', hrest, rfl, rfl⟩
    · next hkind =>
      obtain ⟨items, hitems, rfl⟩ := h
      obtain ⟨out', hout, hitems'⟩ := sequence_alike .items rest rest' (hts.tail [t]) hrest hitems
      exact ⟨out', hout, _, hitems', rfl⟩
    · next hkind =>
      obtain ⟨entries, hentries, rfl⟩ := h
      obtain ⟨out', hout, hentries'⟩ :=
        sequence_alike .entries rest rest' (hts.tail [t]) hrest hentries
      exact ⟨out', hout, _, hentries', rfl⟩
    · next hkind =>
      obtain ⟨x, close, mid, hx, hclose, rfl, rfl⟩ := h
      obtain ⟨_, hclosealike, hx'⟩ := expression_alike 0 rest rest' (hts.tail [t]) hrest hx
      obtain ⟨mid', rfl, hmid⟩ := hclosealike.exists_cons_of_kind (by simp [endsStatement, hclose])
      exact ⟨mid', hmid, _, _, mid', hx', hclose, by rw [Node.moved_withSpan]; rfl, rfl⟩
    · exact h.elim
termination_by 16 * ts.length + 1

theorem argument_alike (ts us : List Token) (hts : SignsSpelled ts)
    (halike : Alike move xs ys ts us) {v : Node} {out : List Token}
    (h : Yields (argument ts) v out) :
    ∃ out', Alike move xs ys out out' ∧ Yields (argument us) (v.moved move) out' := by
  match ts with
  | [] => exact absurd h not_yields_argument_nil
  | t :: rest =>
    obtain ⟨rest', rfl, hrest⟩ := halike.exists_cons (argument_located _ hts h)
    rw [yields_argument_cons] at h
    split at h
    · next hstar =>
      obtain ⟨x, hx, rfl⟩ := h
      have hspan := (expression_located 0 rest (hts.tail [t]) hx).span_moved move
      obtain ⟨out', hout, hx'⟩ := expression_alike 0 rest rest' (hts.tail [t]) hrest hx
      refine ⟨out', hout, yields_argument_cons.mpr ?_⟩
      rw [Token.kind_moved, if_pos hstar]
      exact ⟨_, hx', by rw [hspan]; rfl⟩
    · next hstar =>
      rcases h with ⟨sign, behind, rfl, hsign, x, hx, rfl⟩ | ⟨hplain, hv⟩
      · have hequals : sign.kind = .equals := by simpa using (decide_eq_true_eq.mp hsign).2
        obtain ⟨behind', rfl, hbehind⟩ :=
          hrest.exists_cons_of_kind (by simp [endsStatement, hequals])
        have hspan :=
          (expression_located 0 behind (hts.tail [t, sign]) hx).span_moved move
        obtain ⟨out', hout, hx'⟩ :=
          expression_alike 0 behind behind' (hts.tail [t, sign]) hbehind hx
        refine ⟨out', hout, yields_argument_cons.mpr ?_⟩
        rw [Token.kind_moved, if_neg hstar]
        exact .inl ⟨_, behind', rfl, hsign, _, hx', by rw [hspan]; rfl⟩
      · obtain ⟨out', hout, hv'⟩ := expression_alike 0 (t :: rest) _ hts halike hv
        refine ⟨out', hout, yields_argument_cons.mpr ?_⟩
        rw [Token.kind_moved, if_neg hstar]
        refine .inr ⟨hrest.forall_head? (fun u hu => ?_) (fun _ hu => hu) hplain, hv'⟩
        rcases kind_cases_of_endsStatement hu with hu | hu | hu <;> simp [isKeywordArgument, hu]
termination_by 16 * ts.length + 10

theorem entry_alike (ts us : List Token) (hts : SignsSpelled ts)
    (halike : Alike move xs ys ts us) {v : Node} {out : List Token}
    (h : Yields (entry ts) v out) :
    ∃ out', Alike move xs ys out out' ∧ Yields (entry us) (v.moved move) out' := by
  obtain ⟨key, colon, mid, hkey, hcolon, x, hx, rfl⟩ := yields_entry.mp h
  have hmid : mid.length + 1 < ts.length := hkey.shorter
  have hlocated := expression_located 0 ts hts hkey
  have hspelled := (hlocated.spelled hts).tail [colon]
  obtain ⟨_, hcolonalike, hkey'⟩ := expression_alike 0 ts us hts halike hkey
  obtain ⟨mid', rfl, hmidalike⟩ :=
    hcolonalike.exists_cons_of_kind (by simp [endsStatement, hcolon])
  have hspan := (expression_located 0 mid hspelled hx).span_moved move
  obtain ⟨out', hout, hx'⟩ := expression_alike 0 mid mid' hspelled hmidalike hx
  refine ⟨out', hout, yields_entry.mpr ⟨_, _, mid', hkey', hcolon, _, hx', ?_⟩⟩
  rw [hspan, hlocated.span_moved move]
  rfl
termination_by 16 * ts.length + 10

theorem item_alike (kind : Sequence) (ts us : List Token) (hts : SignsSpelled ts)
    (halike : Alike move xs ys ts us) {v : Node} {out : List Token}
    (h : Yields (item kind ts) v out) :
    ∃ out', Alike move xs ys out out' ∧ Yields (item kind us) (v.moved move) out' := by
  rw [yields_item] at h
  simp only [yields_item]
  match kind with
  | .arguments => exact argument_alike ts us hts halike h
  | .items => exact expression_alike 0 ts us hts halike h
  | .entries => exact entry_alike ts us hts halike h
termination_by 16 * ts.length + 11

theorem sequence_alike (kind : Sequence) (ts us : List Token) (hts : SignsSpelled ts)
    (halike : Alike move xs ys ts us) {v : List Node × Token} {out : List Token}
    (h : Yields (sequence kind ts) v out) :
    ∃ out', Alike move xs ys out out' ∧
      Yields (sequence kind us) (Node.movedAll move v.1, v.2.moved move) out' := by
  match ts with
  | [] => exact absurd h not_yields_sequence_nil
  | t :: rest =>
    obtain ⟨rest', rfl, hrest⟩ := halike.exists_cons (sequence_located kind _ hts h)
    rw [yields_sequence_cons] at h
    split at h
    · next hclose =>
      obtain ⟨rfl, rfl⟩ := h
      refine ⟨rest', hrest, yields_sequence_cons.mpr ?_⟩
      rw [Token.kind_moved, if_pos hclose]
      exact ⟨rfl, rfl⟩
    · next hclose =>
      obtain ⟨hend, x, u, mid, hx, h⟩ := h
      have hmid : mid.length + 1 < rest.length + 1 := hx.shorter
      have hspelled := ((item_located kind (t :: rest) hts hx).spelled hts).tail [u]
      obtain ⟨_, hbehind, hx'⟩ := item_alike kind (t :: rest) _ hts halike hx
      split at h
      · next hcomma =>
        obtain ⟨mid', rfl, hmidalike⟩ :=
          hbehind.exists_cons_of_kind (by simp [endsStatement, hcomma])
        obtain ⟨more, hmore, rfl⟩ := h
        obtain ⟨out', hout, hmore'⟩ := sequence_alike kind mid mid' hspelled hmidalike hmore
        refine ⟨out', hout, yields_sequence_cons.mpr ?_⟩
        rw [Token.kind_moved, if_neg hclose]
        refine ⟨hend, _, _, mid', hx', ?_⟩
        rw [Token.kind_moved, if_pos hcomma]
        exact ⟨_, hmore', rfl⟩
      · next hcomma =>
        obtain ⟨hcloses, rfl, rfl⟩ := h
        obtain ⟨mid', rfl, hmidalike⟩ :=
          hbehind.exists_cons_of_kind
            (endsStatement_eq_false (Sequence.isInner_of_closer hcloses))
        refine ⟨mid', hmidalike, yields_sequence_cons.mpr ?_⟩
        rw [Token.kind_moved, if_neg hclose]
        refine ⟨hend, _, _, mid', hx', ?_⟩
        rw [Token.kind_moved, if_neg hcomma]
        exact ⟨hcloses, rfl, rfl⟩
termination_by 16 * ts.length + 12

end

/-! ### Statements and files -/

theorem loadArguments_alike (ts us : List Token) (hts : SignsSpelled ts)
    (halike : Alike move xs ys ts us) {v : List Node × Token} {out : List Token}
    (h : Yields (loadArguments ts) v out) :
    ∃ out', Alike move xs ys out out' ∧
      Yields (loadArguments us) (Node.movedAll move v.1, v.2.moved move) out' := by
  match ts with
  | [] => exact absurd h not_yields_loadArguments_nil
  | t :: rest =>
    rw [yields_loadArguments_cons] at h
    split at h
    · next hclose =>
      obtain ⟨rest', rfl, hrest⟩ := halike.exists_cons_of_kind (by simp [endsStatement, hclose])
      obtain ⟨rfl, rfl⟩ := h
      refine ⟨rest', hrest, yields_loadArguments_cons.mpr ?_⟩
      rw [Token.kind_moved, if_pos hclose]
      exact ⟨rfl, rfl⟩
    · next hclose =>
      obtain ⟨hcomma, u, behind, hbehind, h⟩ := h
      rw [hbehind] at hts halike
      obtain ⟨_, rfl, hrest⟩ := halike.exists_cons_of_kind (by simp [endsStatement, hcomma])
      split at h
      · next hcloses =>
        obtain ⟨behind', rfl, hout⟩ :=
          hrest.exists_cons_of_kind (by simp [endsStatement, hcloses])
        obtain ⟨rfl, rfl⟩ := h
        refine ⟨behind', hout, yields_loadArguments_cons.mpr ?_⟩
        rw [Token.kind_moved, if_neg hclose]
        refine ⟨hcomma, _, behind', rfl, ?_⟩
        rw [Token.kind_moved, if_pos hcloses]
        exact ⟨rfl, rfl⟩
      · next hcloses =>
        obtain ⟨x, mid, hx, more, hmore, rfl⟩ := h
        have hmid : mid.length < rest.length := hbehind ▸ hx.shorter
        have hspelled : SignsSpelled (u :: behind) := hts.tail [t]
        have hlocated := argument_located _ hspelled hx
        obtain ⟨behind', rfl, -⟩ := hrest.exists_cons hlocated
        obtain ⟨mid', hmidalike, hx'⟩ := argument_alike _ _ hspelled hrest hx
        obtain ⟨out', hout, hmore'⟩ :=
          loadArguments_alike mid mid' (hlocated.spelled hspelled) hmidalike hmore
        refine ⟨out', hout, yields_loadArguments_cons.mpr ?_⟩
        rw [Token.kind_moved, if_neg hclose]
        refine ⟨hcomma, _, behind', rfl, ?_⟩
        rw [Token.kind_moved, if_neg hcloses]
        exact ⟨_, mid', hx', _, hmore', rfl⟩
termination_by ts.length

theorem assignment_alike {v : Node} {out : List Token} (hts : SignsSpelled ts)
    (halike : Alike move xs ys ts us) (h : Yields (assignment ts) v out) :
    ∃ out', Alike move xs ys out out' ∧ Yields (assignment us) (v.moved move) out' := by
  obtain ⟨x, mid, hx, h⟩ := yields_assignment.mp h
  have hlocated := expression_located 0 ts hts hx
  obtain ⟨mid', hmid, hx'⟩ := expression_alike 0 ts us hts halike hx
  rcases h with ⟨sign, behind, rfl, hsign, y, hy, rfl⟩ | ⟨hplain, rfl, rfl⟩
  · have hends : endsStatement sign = false := by
      rcases hsign with hsign | hsign <;> simp [endsStatement, hsign]
    obtain ⟨behind', rfl, hbehind⟩ := hmid.exists_cons_of_kind hends
    have hspelled := (hlocated.spelled hts).tail [sign]
    have hspan := (expression_located 0 behind hspelled hy).span_moved move
    obtain ⟨out', hout, hy'⟩ := expression_alike 0 behind behind' hspelled hbehind hy
    refine ⟨out', hout, yields_assignment.mpr ⟨_, _, hx', ?_⟩⟩
    refine .inl ⟨_, behind', rfl, hsign, _, hy', ?_⟩
    rw [hspan, hlocated.span_moved move]
    rfl
  · refine ⟨mid', hmid, yields_assignment.mpr ⟨_, mid', hx', .inr ⟨?_, rfl, rfl⟩⟩⟩
    refine hmid.forall_head? (fun u hu => ?_) (fun _ hu => hu) hplain
    rcases kind_cases_of_endsStatement hu with hu | hu | hu <;> simp [hu]

/-- **A statement is read in another place and in front of other tokens as well.** -/
theorem statement_alike {v : Node} {out : List Token} (hts : SignsSpelled ts)
    (halike : Alike move xs ys ts us) (h : Yields (statement ts) v out) :
    ∃ out', Alike move xs ys out out' ∧ Yields (statement us) (v.moved move) out' := by
  cases ts with
  | nil => exact absurd h not_yields_statement_nil
  | cons t rest =>
    obtain ⟨hfree, h⟩ := yields_statement_cons.mp h
    have hrest : ∃ rest', us = t.moved move :: rest' ∧ Alike move xs ys rest rest' := by
      rcases h with ⟨opening, behind, -, hload, -⟩ | ⟨-, h⟩
      · exact halike.exists_cons_of_kind (by simp [endsStatement, hload.1])
      · obtain ⟨x, mid, hx, -⟩ := yields_assignment.mp h
        exact halike.exists_cons (expression_located 0 _ hts hx)
    obtain ⟨rest', rfl, hrest⟩ := hrest
    rcases h with ⟨opening, behind, rfl, hload, h⟩ | ⟨hplain, h⟩
    · obtain ⟨_, rfl, hmodule'⟩ :=
        hrest.exists_cons_of_kind (by simp [endsStatement, hload.2.2])
      obtain ⟨module, behind, rfl, hmodule, args, hargs, rfl⟩ := yields_load.mp h
      obtain ⟨behind', rfl, hbehind⟩ :=
        hmodule'.exists_cons_of_kind (by simp [endsStatement, hmodule])
      obtain ⟨out', hout, hargs'⟩ :=
        loadArguments_alike behind behind' (hts.tail [t, opening, module]) hbehind hargs
      refine ⟨out', hout, yields_statement_cons.mpr ⟨hfree, .inl ⟨_, _, rfl, hload, ?_⟩⟩⟩
      exact yields_load.mpr ⟨_, behind', rfl, hmodule, _, hargs', rfl⟩
    · obtain ⟨out', hout, h'⟩ := assignment_alike hts halike h
      refine ⟨out', hout, yields_statement_cons.mpr ⟨hfree, .inr ⟨?_, h'⟩⟩⟩
      refine hrest.forall_head? (fun u hu => ?_) (fun _ hu => hu) hplain
      rcases kind_cases_of_endsStatement hu with hu | hu | hu <;> simp [hu]

/-- The statements of tokens up to the mark of their end are those of the tokens when something else
follows, and those of what follows come behind them. -/
theorem statements_alike {stop : Token} (ts us : List Token) (hts : SignsSpelled ts)
    (hstop : stop.kind = .endOfFile) (halike : Alike move [stop] ys ts us)
    {r more : List Node × Option Token} (h : statements ts = .ok r)
    (hmore : statements ys = .ok more) :
    statements us = .ok (Node.movedAll move r.1 ++ more.1, more.2) := by
  generalize hxs : [stop] = xs at halike
  cases halike with
  | stop _ _ =>
    subst hxs
    rw [statements_cons_eq_ok_iff, if_neg (by simp [hstop]), if_pos hstop] at h
    subst h
    exact hmore
  | @token t rest rest' ht hrest =>
    subst hxs
    rw [statements_cons_eq_ok_iff] at h ⊢
    rw [Token.kind_moved]
    by_cases hsep : t.kind = .newline ∨ t.kind = .semicolon
    · rw [if_pos hsep] at h ⊢
      exact statements_alike rest rest' (hts.tail [t]) hstop hrest h hmore
    · rw [if_neg hsep, if_neg ht] at h ⊢
      obtain ⟨x, mid, hx, hends, tail, htail, rfl⟩ := h
      have hmid : mid.length < rest.length + 1 := hx.shorter
      obtain ⟨used, heq, -⟩ := statement_sound hts hx
      obtain ⟨mid', hmidalike, hx'⟩ := statement_alike hts (hrest.token ht) hx
      have hends' := hmidalike.forall_head? (fun u hu => hu) (fun _ hu => hu) hends
      have htail' := statements_alike mid mid' ((heq ▸ hts).tail used) hstop hmidalike htail hmore
      exact ⟨_, mid', hx', hends', _, htail', rfl⟩
termination_by ts.length

theorem ends_stop {stop : Token} (hstop : stop.kind = .endOfFile) : Ends [stop] := by
  rintro _ ⟨⟩
  simp [endsStatement, hstop]

/-- **The statements of two lists of tokens, the one put in front of the other.**  The first list
may be moved; it gives up the mark of its end, and the second starts where a statement may end. -/
theorem statements_append (move : Position → Position) {stop : Token}
    (hts : SignsSpelled (ts ++ [stop])) (hstop : stop.kind = .endOfFile)
    (hbody : ∀ t ∈ ts, t.kind ≠ .endOfFile) (hus : Ends us) {r more : List Node × Option Token}
    (h : statements (ts ++ [stop]) = .ok r) (hmore : statements us = .ok more) :
    statements (ts.map (Token.moved move) ++ us) =
      .ok (Node.movedAll move r.1 ++ more.1, more.2) := by
  exact statements_alike _ _ hts hstop (alike_append (ends_stop hstop) hus hbody) h hmore

theorem statements_stop_eq_ok {stop : Token} (hstop : stop.kind = .endOfFile) :
    statements [stop] = .ok ([], some stop) := by
  rw [statements_cons_eq_ok_iff, if_neg (by simp [hstop]), if_pos hstop]

/-- The mark of the end is handed on. -/
theorem statements_snd {stop : Token} (hts : SignsSpelled (ts ++ [stop]))
    (hstop : stop.kind = .endOfFile) (hbody : ∀ t ∈ ts, t.kind ≠ .endOfFile)
    {r : List Node × Option Token} (h : statements (ts ++ [stop]) = .ok r) : r.2 = some stop := by
  have hagain := statements_append id hts hstop hbody (ends_stop hstop) h
    (statements_stop_eq_ok hstop)
  rw [Token.moved_id, List.map_id, h, Except.ok.injEq] at hagain
  rw [hagain]

/-- The mark of the end is found. -/
theorem exists_snd_eq_some (hts : SignsSpelled ts) (hend : Terminated ts)
    {r : List Node × Option Token} (h : statements ts = .ok r) : ∃ stop, r.2 = some stop := by
  obtain ⟨body, stop, rfl, hstop, hbody⟩ := hend
  exact ⟨stop, statements_snd hts hstop hbody h⟩

/-- **The statements of tokens that are moved.** -/
theorem statements_moved (move : Position → Position) (hts : SignsSpelled ts) (hend : Terminated ts)
    {r : List Node × Option Token} (h : statements ts = .ok r) :
    statements (ts.map (Token.moved move)) =
      .ok (Node.movedAll move r.1, r.2.map (Token.moved move)) := by
  obtain ⟨body, stop, rfl, hstop, hbody⟩ := hend
  have hmoved : (stop.moved move).kind = .endOfFile := hstop
  rw [List.map_append, List.map_singleton, statements_snd hts hstop hbody h,
    statements_append move hts hstop hbody (ends_stop hmoved) h (statements_stop_eq_ok hmoved),
    List.append_nil]
  rfl

end

end StarlarkLint.Grammar
