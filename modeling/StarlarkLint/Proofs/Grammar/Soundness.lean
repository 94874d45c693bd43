import StarlarkLint.Proofs.Grammar.Reading
import StarlarkLint.Proofs.Grammar.Statement
import StarlarkLint.Proofs.Token.Scan

/-!
# What is read is derived

A reader that succeeds has taken tokens that derive what it yields, each node where its tokens
stand.  The readers call each other on fewer tokens, or on the same tokens further down in rank, and
the proof follows them.

## Main definitions

* `Grammar.strengthOf`, `Grammar.loopStrength` — the strength of the values that a reader reads, and
  of the values that its loop builds.
* `Grammar.Located`, `Grammar.Taken` — the tokens that a reader has taken derive what it yields,
  with its places and apart from them.

## Main results

* `Grammar.expression_located`, `Grammar.statement_placed`, `Grammar.statements_placed` — values,
  statements and files, where they stand.
* `Grammar.expression_sound`, `Grammar.statement_sound`, `Grammar.statements_sound` — the same apart
  from places.
* `Grammar.statements_located` — the values in files.
-/

namespace StarlarkLint.Grammar

/-- The strength of the values that the reader of a level reads. -/
def strengthOf (level : Nat) : Nat := if level ≤ 2 then level else min (level + 1) 7

/-- The strength of the values that the loop of a level builds: comparisons are read where the
prefix `not` may stand, but bind more tightly. -/
def loopStrength (level : Nat) : Nat := if level ≤ 1 then level else level + 1

theorem strengthOf_succ {level : Nat} (h : level < Operator.levelCount) :
    strengthOf (level + 1) = loopStrength level + 1 := by
  have hlevel : level < 6 := h
  unfold strengthOf loopStrength
  split <;> split <;> omega

theorem mem_operators_of_mem_atLevel {level : Nat} {op : String}
    (h : op ∈ Operator.atLevel level) :
    level < Operator.levelCount ∧ op ∈ operators (loopStrength level) := by
  match level with
  | 0 | 1 | 2 | 3 | 4 | 5 => exact ⟨by decide, h⟩
  | level + 6 => simp [Operator.atLevel, Operator.levels] at h

/-- Values that the loop of a level builds are values of that level. -/
theorem Placed.of_loop {level : Nat} (hlevel : level < Operator.levelCount) {ts : List Token}
    {n : Node} (h : Placed (.value (loopStrength level)) ts n) :
    Placed (.value (strengthOf level)) ts n := by
  match level with
  | 0 | 1 | 3 | 4 | 5 => exact h
  -- comparisons are values of the level where the prefix `not` may stand
  | 2 => exact h.tighter
  | level + 6 => exact absurd hlevel (by simp)

/-- Every sign that is a binary operator stands for its own text. -/
def SignsSpelled (ts : List Token) : Prop :=
  ∀ t ∈ ts, t.kind ∈ Operator.signKinds → t.symbol ∈ signs

theorem SignsSpelled.tail {rest : List Token} (used : List Token)
    (h : SignsSpelled (used ++ rest)) : SignsSpelled rest :=
  fun t ht => h t (List.mem_append_right used ht)

/-- The operator that a list of tokens starts with is spelled by its first tokens. -/
theorem spells_of_binary? {t : Token} {rest : List Token} {op : String}
    (hts : SignsSpelled (t :: rest)) (h : Operator.binary? t rest = some op) :
    ∃ os, rest = os ++ rest.drop (Operator.width op - 1) ∧
      Spells (t.symbol :: os.map Token.symbol) op := by
  unfold Operator.binary? at h
  split at h
  · next hkey =>
    split at h
    · next hnot =>
      split at h
      · next hin =>
        -- the one operator of two words
        cases h
        match rest with
        | u :: rest =>
          refine ⟨[u], rfl, ?_⟩
          simp only [Operator.startsWithIn, decide_eq_true_eq] at hin
          have ht : t.symbol = ⟨.keyword, "not"⟩ := by simp [Token.symbol, hkey, hnot]
          have hu : u.symbol = ⟨.keyword, "in"⟩ := by simp [Token.symbol, hin]
          rw [List.map_singleton, ht, hu]
          exact .notIn
      · cases h
    · split at h
      · next hword =>
        cases h
        have hone : ∀ word ∈ ["and", "or", "in"], Operator.width word = 1 := by decide
        exact ⟨[], by simp [hone _ hword], .word hkey hword⟩
      · cases h
  · split at h
    · next hsign =>
      cases h
      have hmem := hts t List.mem_cons_self hsign
      have hone : ∀ s ∈ signs, Operator.width s.value = 1 := by decide
      have hwidth : Operator.width t.value = 1 := hone _ hmem
      exact ⟨[], by simp [hwidth], .sign hmem⟩
    · cases h

/-! ### Values -/

/-- The tokens that are gone from a list derive a node where they stand. -/
def Located (c : Category) (ts : List Token) (n : Node) (rest : List Token) : Prop :=
  ∃ used, ts = used ++ rest ∧ Placed c used n

/-- The tokens that are gone from a list derive a node. -/
def Taken (c : Category) (ts : List Token) (n : Node) (rest : List Token) : Prop :=
  ∃ used, ts = used ++ rest ∧ Derives c (used.map Token.symbol) n.bare

theorem Located.taken {c : Category} {ts rest : List Token} {n : Node} (h : Located c ts n rest) :
    Taken c ts n rest := by
  obtain ⟨used, heq, hp⟩ := h
  exact ⟨used, heq, hp.derives⟩

mutual

theorem expression_located (level : Nat) (ts : List Token) (hts : SignsSpelled ts) {v : Node}
    {out : List Token} (h : Yields (expression level ts) v out) :
    Located (.value (strengthOf level)) ts v out := by
  match ts with
  | [] => exact absurd h not_yields_expression_nil
  | t :: rest =>
    rw [yields_expression_cons] at h
    split at h
    · next hnot =>
      obtain ⟨x, hx, rfl⟩ := h
      obtain ⟨used, rfl, hp⟩ := expression_located level rest (hts.tail [t]) hx
      simp only [isNot, decide_eq_true_eq] at hnot
      obtain ⟨rfl, hkind, hvalue⟩ := hnot
      have ht : t.symbol = ⟨.keyword, "not"⟩ := by simp [Token.symbol, hkind, hvalue]
      exact ⟨t :: used, rfl, .negation ht hp⟩
    · split at h
      · next hlt =>
        have hlevel : level < 6 := hlt
        obtain ⟨x, mid, hx, hv⟩ := h
        have hmid : mid.length < rest.length + 1 := hx.shorter
        obtain ⟨used, heq, hp⟩ := expression_located (level + 1) (t :: rest) hts hx
        rw [strengthOf_succ hlt] at hp
        obtain ⟨used', rfl, hp'⟩ :=
          operation_located level mid ((heq ▸ hts).tail used) hp.tighter hv
        exact ⟨used ++ used', by rw [heq, List.append_assoc], hp'.of_loop hlt⟩
      · next hge =>
        have hstrength : strengthOf level = 7 := by
          have hlevel : ¬ level < 6 := hge
          unfold strengthOf
          split <;> omega
        rw [hstrength]
        exact unary_located (t :: rest) hts h
termination_by 16 * ts.length + (6 - level) + 3

theorem operation_located (level : Nat) {left : Node} (ts : List Token) (hts : SignsSpelled ts)
    {us : List Token} (hleft : Placed (.value (loopStrength level)) us left) {v : Node}
    {out : List Token} (h : Yields (operation level left ts) v out) :
    ∃ used, ts = used ++ out ∧ Placed (.value (loopStrength level)) (us ++ used) v := by
  match ts with
  | [] =>
    obtain ⟨rfl, rfl⟩ := yields_operation_nil.mp h
    exact ⟨[], rfl, by simpa using hleft⟩
  | t :: rest =>
    rcases yields_operation_cons.mp h with ⟨op, hop, hmem, y, mid, hy, hv⟩ | ⟨-, rfl, rfl⟩
    · obtain ⟨os, heq, hspells⟩ := spells_of_binary? hts hop
      have hdrop : (rest.drop (Operator.width op - 1)).length ≤ rest.length := by simp
      have hmid := hy.shorter
      obtain ⟨used, hused, hp⟩ := expression_located (level + 1)
        (rest.drop (Operator.width op - 1)) (by
          rw [heq] at hts
          exact (hts.tail [t]).tail os) hy
      obtain ⟨hlt, hmem⟩ := mem_operators_of_mem_atLevel hmem
      rw [strengthOf_succ hlt] at hp
      have hspells' : Spells ((t :: os).map Token.symbol) op := hspells
      have hwhole := hleft.operation hspells' hmem hp
      rw [hused] at heq
      obtain ⟨used', rfl, hp'⟩ := operation_located level mid (by
          rw [heq] at hts
          exact ((hts.tail [t]).tail os).tail used) hwhole hv
      refine ⟨t :: (os ++ (used ++ used')), by rw [heq]; simp, ?_⟩
      simpa using hp'
    · exact ⟨[], rfl, by simpa using hleft⟩
termination_by 16 * ts.length

theorem unary_located (ts : List Token) (hts : SignsSpelled ts) {v : Node} {out : List Token}
    (h : Yields (unary ts) v out) : Located (.value 7) ts v out := by
  match ts with
  | [] => exact absurd h not_yields_unary_nil
  | t :: rest =>
    rw [yields_unary_cons] at h
    split at h
    · next hsign =>
      obtain ⟨x, hx, rfl⟩ := h
      obtain ⟨used, rfl, hp⟩ := unary_located rest (hts.tail [t]) hx
      exact ⟨t :: used, rfl, .sign hsign hp⟩
    · obtain ⟨x, mid, hx, hv⟩ := h
      have hmid : mid.length < rest.length + 1 := hx.shorter
      obtain ⟨used, heq, hp⟩ := primary_located (t :: rest) hts hx
      obtain ⟨used', rfl, hp'⟩ := postfixes_located mid ((heq ▸ hts).tail used) hp hv
      exact ⟨used ++ used', by rw [heq, List.append_assoc], hp'.tighter⟩
termination_by 16 * ts.length + 2

theorem postfixes_located {base : Node} (ts : List Token) (hts : SignsSpelled ts)
    {us : List Token} (hbase : Placed (.value 8) us base) {v : Node} {out : List Token}
    (h : Yields (postfixes base ts) v out) :
    ∃ used, ts = used ++ out ∧ Placed (.value 8) (us ++ used) v := by
  match ts with
  | [] =>
    obtain ⟨rfl, rfl⟩ := yields_postfixes_nil.mp h
    exact ⟨[], rfl, by simpa using hbase⟩
  | t :: rest =>
    rw [yields_postfixes_cons] at h
    split at h
    · next hdot =>
      obtain ⟨name, behind, rfl, hname, hv⟩ := h
      obtain ⟨used, rfl, hp⟩ :=
        postfixes_located behind (hts.tail [t, name]) (hbase.member hdot hname) hv
      exact ⟨t :: name :: used, rfl, by simpa using hp⟩
    · split at h
      · next hparen =>
        obtain ⟨args, mid, hargs, hv⟩ := h
        have hmid := hargs.shorter
        obtain ⟨used, rfl, hp⟩ := sequence_located .arguments rest (hts.tail [t]) hargs
        obtain ⟨used', rfl, hp'⟩ :=
          postfixes_located mid ((hts.tail [t]).tail used) (hbase.call hparen hp) hv
        exact ⟨t :: (used ++ used'), by simp, by simpa using hp'⟩
      · obtain ⟨rfl, rfl⟩ := h
        exact ⟨[], rfl, by simpa using hbase⟩
termination_by 16 * ts.length

theorem primary_located (ts : List Token) (hts : SignsSpelled ts) {v : Node} {out : List Token}
    (h : Yields (primary ts) v out) : Located (.value 8) ts v out := by
  match ts with
  | [] => exact absurd h not_yields_primary_nil
  | t :: rest =>
    rw [yields_primary_cons] at h
    split at h
    · next hkind =>
      obtain ⟨hfree, rfl, rfl⟩ := h
      exact ⟨[t], rfl, .name hkind hfree⟩
    · next hkind =>
      obtain ⟨rfl, rfl⟩ := h
      refine ⟨t :: rest.takeWhile (·.kind = .string), ?_, .string hkind ?_⟩
      · rw [List.cons_append, List.prefix_iff_eq_append.mp (List.takeWhile_prefix _)]
      · intro u hu
        simpa using List.all_eq_true.mp List.all_takeWhile u hu
    · next hkind =>
      obtain ⟨rfl, rfl⟩ := h
      exact ⟨[t], rfl, .number hkind⟩
    · next hkind =>
      obtain ⟨items, hitems, rfl⟩ := h
      obtain ⟨used, rfl, hp⟩ := sequence_located .items rest (hts.tail [t]) hitems
      exact ⟨t :: used, rfl, .list hkind hp⟩
    · next hkind =>
      obtain ⟨entries, hentries, rfl⟩ := h
      obtain ⟨used, rfl, hp⟩ := sequence_located .entries rest (hts.tail [t]) hentries
      exact ⟨t :: used, rfl, .dict hkind hp⟩
    · next hkind =>
      obtain ⟨x, close, _, hx, hclose, rfl, rfl⟩ := h
      obtain ⟨used, rfl, hp⟩ := expression_located 0 rest (hts.tail [t]) hx
      exact ⟨t :: (used ++ [close]), by simp, .parenthesised hkind hp hclose⟩
    · exact h.elim
termination_by 16 * ts.length + 1

theorem argument_located (ts : List Token) (hts : SignsSpelled ts) {v : Node} {out : List Token}
    (h : Yields (argument ts) v out) : Located .argument ts v out := by
  match ts with
  | [] => exact absurd h not_yields_argument_nil
  | t :: rest =>
    rw [yields_argument_cons] at h
    split at h
    · next hstar =>
      obtain ⟨x, hx, rfl⟩ := h
      obtain ⟨used, rfl, hp⟩ := expression_located 0 rest (hts.tail [t]) hx
      exact ⟨t :: used, rfl, .starred hstar hp⟩
    · rcases h with ⟨sign, behind, rfl, hsign, x, hx, rfl⟩ | ⟨-, hv⟩
      · obtain ⟨used, rfl, hp⟩ := expression_located 0 behind (hts.tail [t, sign]) hx
        simp only [isKeywordArgument, decide_eq_true_eq] at hsign
        exact ⟨t :: sign :: used, rfl, .keyword hsign.1 hsign.2 hp⟩
      · obtain ⟨used, heq, hp⟩ := expression_located 0 (t :: rest) hts hv
        exact ⟨used, heq, hp.positional⟩
termination_by 16 * ts.length + 10

theorem entry_located (ts : List Token) (hts : SignsSpelled ts) {v : Node} {out : List Token}
    (h : Yields (entry ts) v out) : Located .entry ts v out := by
  obtain ⟨key, colon, mid, hkey, hcolon, x, hx, rfl⟩ := yields_entry.mp h
  have hmid : mid.length + 1 < ts.length := hkey.shorter
  obtain ⟨used, rfl, hp⟩ := expression_located 0 ts hts hkey
  obtain ⟨used', rfl, hp'⟩ := expression_located 0 mid ((hts.tail used).tail [colon]) hx
  exact ⟨used ++ colon :: used', by simp, .entry hp hcolon hp'⟩
termination_by 16 * ts.length + 10

theorem item_located (kind : Sequence) (ts : List Token) (hts : SignsSpelled ts) {v : Node}
    {out : List Token} (h : Yields (item kind ts) v out) : Located kind.member ts v out := by
  rw [yields_item] at h
  match kind with
  | .arguments => exact argument_located ts hts h
  | .items => exact expression_located 0 ts hts h
  | .entries => exact entry_located ts hts h
termination_by 16 * ts.length + 11

theorem sequence_located (kind : Sequence) (ts : List Token) (hts : SignsSpelled ts)
    {v : List Node × Token} {out : List Token} (h : Yields (sequence kind ts) v out) :
    Located (.members kind) ts (.list v.2.span v.1) out := by
  match ts with
  | [] => exact absurd h not_yields_sequence_nil
  | t :: rest =>
    rw [yields_sequence_cons] at h
    split at h
    · next hclose =>
      obtain ⟨rfl, rfl⟩ := h
      exact ⟨[t], rfl, .close hclose⟩
    · obtain ⟨-, x, u, mid, hx, h⟩ := h
      have hmid : mid.length + 1 < rest.length + 1 := hx.shorter
      obtain ⟨used, heq, hp⟩ := item_located kind (t :: rest) hts hx
      split at h
      · next hcomma =>
        obtain ⟨more, hmore, rfl⟩ := h
        obtain ⟨used', rfl, hp'⟩ :=
          sequence_located kind mid (((heq ▸ hts).tail used).tail [u]) hmore
        exact ⟨used ++ u :: used', by rw [heq]; simp, .more hp hcomma hp'⟩
      · obtain ⟨hclose, rfl, rfl⟩ := h
        exact ⟨used ++ [u], by rw [heq]; simp, .last hp hclose⟩
termination_by 16 * ts.length + 12

end

/-! ### Values apart from places -/

section

variable {ts : List Token} {v : Node} {out : List Token}

theorem expression_sound (level : Nat) (ts : List Token) (hts : SignsSpelled ts)
    (h : Yields (expression level ts) v out) : Taken (.value (strengthOf level)) ts v out :=
  (expression_located level ts hts h).taken

theorem primary_sound (ts : List Token) (hts : SignsSpelled ts) (h : Yields (primary ts) v out) :
    Taken (.value 8) ts v out :=
  (primary_located ts hts h).taken

theorem argument_sound (ts : List Token) (hts : SignsSpelled ts) (h : Yields (argument ts) v out) :
    Taken .argument ts v out :=
  (argument_located ts hts h).taken

theorem item_sound (kind : Sequence) (ts : List Token) (hts : SignsSpelled ts)
    (h : Yields (item kind ts) v out) : Taken kind.member ts v out :=
  (item_located kind ts hts h).taken

theorem sequence_sound (kind : Sequence) (ts : List Token) (hts : SignsSpelled ts)
    {members : List Node × Token} (h : Yields (sequence kind ts) members out) :
    Taken (.members kind) ts (.list members.2.span members.1) out :=
  (sequence_located kind ts hts h).taken

end

/-! ### Statements and files -/

theorem loadArguments_placed (ts : List Token) (hts : SignsSpelled ts) {v : List Node × Token}
    {out : List Token} (h : Yields (loadArguments ts) v out) :
    ∃ used, ts = used ++ out ∧ LoadPlaced used v.2.span v.1 := by
  match ts with
  | [] => exact absurd h not_yields_loadArguments_nil
  | t :: rest =>
    rw [yields_loadArguments_cons] at h
    split at h
    · next hclose =>
      obtain ⟨rfl, rfl⟩ := h
      exact ⟨[t], rfl, .close hclose⟩
    · obtain ⟨hcomma, u, behind, hrest, h⟩ := h
      rw [hrest] at hts ⊢
      split at h
      · next hclose =>
        obtain ⟨rfl, rfl⟩ := h
        exact ⟨[t, u], rfl, .closeBehindComma hcomma hclose⟩
      · obtain ⟨x, mid, hx, more, hmore, rfl⟩ := h
        have hmid : mid.length < rest.length := hrest ▸ hx.shorter
        obtain ⟨used, heq, hp⟩ := argument_located (u :: behind) (hts.tail [t]) hx
        rw [heq] at hts ⊢
        obtain ⟨used', rfl, hp'⟩ := loadArguments_placed mid ((hts.tail [t]).tail used) hmore
        exact ⟨t :: (used ++ used'), by simp, .more hcomma hp hp'⟩
termination_by ts.length

theorem statement_placed {ts : List Token} (hts : SignsSpelled ts) {v : Node} {out : List Token}
    (h : Yields (statement ts) v out) : ∃ used, ts = used ++ out ∧ StatementPlaced used v := by
  cases ts with
  | nil => exact absurd h not_yields_statement_nil
  | cons t rest =>
    obtain ⟨-, ⟨opening, behind, rfl, hload, h⟩ | ⟨hload, h⟩⟩ := yields_statement_cons.mp h
    · obtain ⟨module, rest, rfl, hmodule, args, hargs, rfl⟩ := yields_load.mp h
      obtain ⟨used, rfl, hp⟩ :=
        loadArguments_placed rest (hts.tail [t, opening, module]) hargs
      refine ⟨t :: opening :: module :: used, rfl, ?_⟩
      exact .load ⟨hload.1, hload.2.1⟩ hload.2.2 hmodule hp
    · -- the first tokens of the value are those of the statement
      have hvalue : ∀ {used mid}, t :: rest = used ++ mid →
          ¬ StartsLoad (used.map Token.symbol) := by
        intro used mid heq hstarts
        match used with
        | [] => exact hstarts
        | [u] => exact hstarts
        | u :: next :: used =>
          obtain ⟨rfl, rfl⟩ := List.cons.inj heq
          exact hload next rfl hstarts
      obtain ⟨x, mid, hx, h⟩ := yields_assignment.mp h
      obtain ⟨used, heq, hp⟩ := expression_located 0 (t :: rest) hts hx
      rcases h with ⟨sign, behind, rfl, hsign, y, hy, rfl⟩ | ⟨-, rfl, rfl⟩
      · obtain ⟨used', rfl, hp'⟩ :=
          expression_located 0 behind (((heq ▸ hts).tail used).tail [sign]) hy
        exact ⟨used ++ sign :: used', by rw [heq]; simp, .assign hp hsign hp' (hvalue heq)⟩
      · exact ⟨used, heq, .value hp (hvalue heq)⟩

theorem statement_sound {ts : List Token} (hts : SignsSpelled ts) {v : Node} {out : List Token}
    (h : Yields (statement ts) v out) :
    ∃ used, ts = used ++ out ∧ StatementDerives (used.map Token.symbol) v.bare := by
  obtain ⟨used, heq, hp⟩ := statement_placed hts h
  exact ⟨used, heq, hp.derives⟩

/-- **The statements of a file are derived where they stand**, and the last token marks its end. -/
theorem statements_placed (ts : List Token) (hts : SignsSpelled ts) (hend : Terminated ts)
    {r : List Node × Option Token} (h : statements ts = .ok r) :
    FilePlaced ts r.1 ∧ r.2 = ts.getLast? := by
  match ts with
  | [] => exact absurd rfl hend.ne_nil
  | t :: rest =>
    rw [statements_cons_eq_ok_iff] at h
    split at h
    · next hsep =>
      have hkind : t.kind ≠ .endOfFile := by
        rcases hsep with hsep | hsep <;> simp [hsep]
      have hrest := hend.of_cons hkind
      obtain ⟨hp, hlast⟩ := statements_placed rest (hts.tail [t]) hrest h
      exact ⟨.separator hsep hp, by rw [hlast, List.getLast?_cons_of_ne_nil hrest.ne_nil]⟩
    · split at h
      · next heof =>
        subst h
        rw [hend.eq_nil_of_endOfFile heof]
        exact ⟨.stop heof, rfl⟩
      · obtain ⟨x, mid, hx, hends, more, hmore, rfl⟩ := h
        have hmid : mid.length < rest.length + 1 := hx.shorter
        obtain ⟨used, heq, hp⟩ := statement_placed hts hx
        rw [heq] at hts hend ⊢
        have htail := hend.of_append hp.kind_ne_endOfFile
        obtain ⟨hfile, hlast⟩ := statements_placed mid (hts.tail used) htail hmore
        refine ⟨.statement hp hends hfile, ?_⟩
        rw [hlast, List.getLast?_append_of_ne_nil used htail.ne_nil]
termination_by ts.length

theorem statements_sound (ts : List Token) (hts : SignsSpelled ts) (hend : Terminated ts)
    {r : List Node × Option Token} (h : statements ts = .ok r) :
    FileDerives (ts.map Token.symbol) (Node.bareAll r.1) :=
  (statements_placed ts hts hend h).1.derives

/-- **Every value in the statements of a file is derived from a stretch of its tokens**, whether or
not the end of the file is marked. -/
theorem statements_located (ts : List Token) (hts : SignsSpelled ts) (hstars : StarsSpelled ts)
    {r : List Node × Option Token} (h : statements ts = .ok r) :
    ∀ n ∈ r.1, ∀ m ∈ n.statementValues, StandsIn ts m := by
  match ts with
  | [] =>
    rw [statements] at h
    cases h
    exact List.forall_mem_nil _
  | t :: rest =>
    rw [statements_cons_eq_ok_iff] at h
    split at h
    · intro n hn m hm
      have hrest := statements_located rest (hts.tail [t]) (hstars.tail [t]) h n hn m hm
      exact hrest.mono (List.suffix_cons t rest).isInfix
    · split at h
      · subst h
        exact List.forall_mem_nil _
      · obtain ⟨x, mid, hx, -, more, hmore, rfl⟩ := h
        have hmid : mid.length < rest.length + 1 := hx.shorter
        obtain ⟨used, heq, hp⟩ := statement_placed hts hx
        rw [heq] at hts hstars ⊢
        refine List.forall_mem_cons.mpr ⟨?_, fun n hn m hm => ?_⟩
        · exact standsIn_of_part (List.prefix_append used mid).isInfix hstars hp.value_mem
        · have hrest := statements_located mid (hts.tail used) (hstars.tail used) hmore n hn m hm
          exact hrest.mono (List.suffix_append used mid).isInfix
termination_by ts.length

end StarlarkLint.Grammar
