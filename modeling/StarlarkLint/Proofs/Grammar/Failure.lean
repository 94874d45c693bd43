import StarlarkLint.Proofs.Grammar.Soundness

/-!
# How readers fail

A sequence may break off right behind one of its items, because no token is left at all.  Over
tokens that end with the mark for the end of the file this cannot happen: what a reader takes
derives a node, and no derivation holds the mark, so that the mark is always among the tokens left.

## Main definitions

* `Grammar.Orderly` — a reader does not break off behind an item.
* `Grammar.Readable` — what is needed of the tokens.

## Main results

* `Grammar.expression_orderly`, `Grammar.statements_orderly` — values and files.
-/

namespace StarlarkLint.Grammar

/-- If the reader fails, then not because the tokens end right behind an item. -/
def Orderly {α : Type} (r : Except ParseError α) : Prop :=
  ∀ e, r = .error e → ∀ closer, e.problem ≠ .endsBehindItem closer

variable {α β : Type}

theorem orderly_ok (a : α) : Orderly (.ok a) := by
  intro e he
  cases he

theorem orderly_failAt {t : Token} {problem : ParseProblem}
    (h : ∀ closer, problem ≠ .endsBehindItem closer) :
    Orderly (failAt t problem : Except ParseError α) := by
  intro e he
  cases he
  exact h

theorem orderly_failBefore {ts : List Token} {problem : ParseProblem}
    (h : ∀ closer, problem ≠ .endsBehindItem closer) :
    Orderly (failBefore ts problem : Except ParseError α) := by
  intro e he
  cases he
  exact h

/-- One reader behind another. -/
theorem Orderly.bind {r : Except ParseError α} {k : α → Except ParseError β} (hr : Orderly r)
    (hk : ∀ a, r = .ok a → Orderly (k a)) : Orderly (r >>= k) := by
  cases r with
  | error e =>
    intro e' he'
    cases he'
    exact hr e rfl
  | ok a => exact hk a rfl

/-! ### The mark stays among the tokens that are left -/

/-- The tokens are ready to be read: signs stand for themselves, and the end is marked. -/
structure Readable (ts : List Token) : Prop where
  /-- Signs stand for themselves. -/
  spelled : SignsSpelled ts
  /-- The end is marked. -/
  marked : Terminated ts

theorem Readable.of_cons {t : Token} {rest : List Token} (h : Readable (t :: rest))
    (ht : t.kind ≠ .endOfFile) : Readable rest :=
  ⟨h.spelled.tail [t], h.marked.of_cons ht⟩

theorem Readable.of_append {used rest : List Token} (h : Readable (used ++ rest))
    (hused : ∀ s ∈ used.map Token.symbol, IsInner s) : Readable rest :=
  ⟨h.spelled.tail used, h.marked.of_append (kind_ne_endOfFile_of_isInner hused)⟩

theorem Taken.readable {c : Category} {ts rest : List Token} {n : Node} (h : Taken c ts n rest)
    (hts : Readable ts) : Readable rest := by
  obtain ⟨used, rfl, hd⟩ := h
  exact hts.of_append hd.isInner

theorem readable_of_expression {level : Nat} {ts rest : List Token} {v : Node} (hts : Readable ts)
    (h : Yields (expression level ts) v rest) : Readable rest :=
  (expression_sound level ts hts.spelled h).readable hts

theorem readable_of_sequence {kind : Sequence} {ts rest : List Token} {v : List Node × Token}
    (hts : Readable ts) (h : Yields (sequence kind ts) v rest) : Readable rest := by
  obtain ⟨used, rfl, hd⟩ := sequence_sound kind ts hts.spelled h
  exact hts.of_append hd.isInner

/-! ### Values -/

theorem readable_of_binary? {t : Token} {rest : List Token} {op : String}
    (hts : Readable (t :: rest)) (h : Operator.binary? t rest = some op) :
    Readable (rest.drop (Operator.width op - 1)) := by
  obtain ⟨os, heq, hspells⟩ := spells_of_binary? hts.spelled h
  generalize rest.drop (Operator.width op - 1) = behind at heq
  subst heq
  rw [← List.cons_append] at hts
  exact hts.of_append hspells.isInner

mutual

theorem expression_orderly (level : Nat) (ts : List Token) (hts : Readable ts) :
    Orderly (expression level ts) := by
  match ts with
  | [] => exact absurd rfl hts.marked.ne_nil
  | t :: rest =>
    rw [expression]
    split
    · next hnot =>
      simp only [isNot, decide_eq_true_eq] at hnot
      have hrest := hts.of_cons (by simp [hnot])
      exact (expression_orderly level rest hrest).bind fun _ _ => orderly_ok _
    · split
      · next hlt =>
        have hlevel : level < 6 := hlt
        refine (expression_orderly (level + 1) (t :: rest) hts).bind fun left hleft => ?_
        have hmid : left.rest.length < rest.length + 1 := left.shorter
        have hrest := readable_of_expression hts (v := left.value) ⟨left.shorter, hleft⟩
        exact (operation_orderly level left.value left.rest hrest).bind fun _ _ => orderly_ok _
      · exact unary_orderly (t :: rest) hts
termination_by 16 * ts.length + (6 - level) + 3

theorem operation_orderly (level : Nat) (left : Node) (ts : List Token) (hts : Readable ts) :
    Orderly (operation level left ts) := by
  match ts with
  | [] => exact absurd rfl hts.marked.ne_nil
  | t :: rest =>
    rw [operation]
    split
    · exact orderly_ok _
    · next op hop =>
      split
      · have hbehind := readable_of_binary? hts hop
        have hdrop : (rest.drop (Operator.width op - 1)).length ≤ rest.length := by simp
        refine (expression_orderly (level + 1) _ hbehind).bind fun right hright => ?_
        have hmid := right.shorter
        have hrest := readable_of_expression hbehind (v := right.value) ⟨right.shorter, hright⟩
        exact (operation_orderly level _ right.rest hrest).bind fun _ _ => orderly_ok _
      · exact orderly_ok _
termination_by 16 * ts.length

theorem unary_orderly (ts : List Token) (hts : Readable ts) : Orderly (unary ts) := by
  match ts with
  | [] => exact absurd rfl hts.marked.ne_nil
  | t :: rest =>
    rw [unary]
    split
    · next hsign =>
      have hrest := hts.of_cons (by rcases hsign with h | h <;> simp [h])
      exact (unary_orderly rest hrest).bind fun _ _ => orderly_ok _
    · refine (primary_orderly (t :: rest) hts).bind fun base hbase => ?_
      have hmid : base.rest.length < rest.length + 1 := base.shorter
      have hrest := (primary_sound (t :: rest) hts.spelled (v := base.value)
        ⟨base.shorter, hbase⟩).readable hts
      exact (postfixes_orderly base.value base.rest hrest).bind fun _ _ => orderly_ok _
termination_by 16 * ts.length + 2

theorem postfixes_orderly (base : Node) (ts : List Token) (hts : Readable ts) :
    Orderly (postfixes base ts) := by
  match ts with
  | [] => exact absurd rfl hts.marked.ne_nil
  | t :: rest =>
    rw [postfixes.eq_def]
    dsimp only
    split
    · next hdot =>
      have hrest := hts.of_cons (by simp [hdot])
      match rest with
      | [] => exact orderly_failBefore (by simp)
      | name :: behind =>
        dsimp only
        split
        · next hname =>
          have hbehind := hrest.of_cons (by simp [hname])
          exact (postfixes_orderly _ behind hbehind).bind fun _ _ => orderly_ok _
        · exact orderly_failAt (by simp)
    · split
      · next hparen =>
        have hrest := hts.of_cons (by simp [hparen])
        refine (sequence_orderly .arguments rest hrest).bind fun args hargs => ?_
        have hmid := args.shorter
        have hbehind := readable_of_sequence hrest (v := args.value) ⟨args.shorter, hargs⟩
        exact (postfixes_orderly _ args.rest hbehind).bind fun _ _ => orderly_ok _
      · exact orderly_ok _
termination_by 16 * ts.length

theorem primary_orderly (ts : List Token) (hts : Readable ts) : Orderly (primary ts) := by
  match ts with
  | [] => exact absurd rfl hts.marked.ne_nil
  | t :: rest =>
    rw [primary]
    split
    · split
      · exact orderly_failAt (by simp)
      · exact orderly_ok _
    · exact orderly_ok _
    · exact orderly_ok _
    · next hkind =>
      have hrest := hts.of_cons (by simp [hkind])
      exact (sequence_orderly .items rest hrest).bind fun _ _ => orderly_ok _
    · next hkind =>
      have hrest := hts.of_cons (by simp [hkind])
      exact (sequence_orderly .entries rest hrest).bind fun _ _ => orderly_ok _
    · next hkind =>
      have hrest := hts.of_cons (by simp [hkind])
      refine (expression_orderly 0 rest hrest).bind fun inner _ => ?_
      dsimp only
      split
      · exact orderly_failBefore (by simp)
      · split
        · exact orderly_ok _
        · exact orderly_failAt (by simp)
    · exact orderly_failAt (by simp)
termination_by 16 * ts.length + 1

theorem argument_orderly (ts : List Token) (hts : Readable ts) : Orderly (argument ts) := by
  match ts with
  | [] => exact absurd rfl hts.marked.ne_nil
  | t :: rest =>
    rw [argument.eq_def]
    dsimp only
    split
    · next hstar =>
      have hrest := hts.of_cons (by rcases hstar with h | h <;> simp [h])
      exact (expression_orderly 0 rest hrest).bind fun _ _ => orderly_ok _
    · match rest with
      | [] => exact expression_orderly 0 [t] hts
      | sign :: behind =>
        dsimp only
        split
        · next hsign =>
          simp only [isKeywordArgument, decide_eq_true_eq] at hsign
          have hbehind := (hts.of_cons (by simp [hsign])).of_cons (by simp [hsign])
          exact (expression_orderly 0 behind hbehind).bind fun _ _ => orderly_ok _
        · exact expression_orderly 0 (t :: sign :: behind) hts
termination_by 16 * ts.length + 10

theorem entry_orderly (ts : List Token) (hts : Readable ts) : Orderly (entry ts) := by
  rw [entry]
  refine (expression_orderly 0 ts hts).bind fun key hkey => ?_
  have hrest := readable_of_expression hts (v := key.value) ⟨key.shorter, hkey⟩
  have hmid := key.shorter
  dsimp only
  split
  · exact orderly_failBefore (by simp)
  · next colon rest heq =>
    rw [heq] at hrest hmid
    split
    · next hcolon =>
      have hlen : rest.length + 1 < ts.length := hmid
      have hbehind := hrest.of_cons (by simp [hcolon])
      exact (expression_orderly 0 rest hbehind).bind fun _ _ => orderly_ok _
    · exact orderly_failAt (by simp)
termination_by 16 * ts.length + 10

theorem item_orderly (kind : Sequence) (ts : List Token) (hts : Readable ts) :
    Orderly (item kind ts) := by
  rw [item.eq_def]
  match kind with
  | .arguments => exact argument_orderly ts hts
  | .items => exact expression_orderly 0 ts hts
  | .entries => exact entry_orderly ts hts
termination_by 16 * ts.length + 11

theorem sequence_orderly (kind : Sequence) (ts : List Token) (hts : Readable ts) :
    Orderly (sequence kind ts) := by
  match ts with
  | [] => exact absurd rfl hts.marked.ne_nil
  | t :: rest =>
    rw [sequence]
    split
    · exact orderly_ok _
    · split
      · exact orderly_failBefore (by simp)
      · refine (item_orderly kind (t :: rest) hts).bind fun first hfirst => ?_
        have hrest := (item_sound kind (t :: rest) hts.spelled (v := first.value)
          ⟨first.shorter, hfirst⟩).readable hts
        have hmid := first.shorter
        dsimp only
        split
        -- the mark is left, so that there is a token behind the item
        · next heq => exact absurd heq hrest.marked.ne_nil
        · next u behind heq =>
          rw [heq] at hrest hmid
          split
          · next hcomma =>
            have hlen : behind.length + 1 < rest.length + 1 := hmid
            have hbehind := hrest.of_cons (by simp [hcomma])
            exact (sequence_orderly kind behind hbehind).bind fun _ _ => orderly_ok _
          · split
            · exact orderly_ok _
            · exact orderly_failAt (by simp)
termination_by 16 * ts.length + 12

end

/-! ### Statements and files -/

theorem loadArguments_orderly (ts : List Token) (hts : Readable ts) :
    Orderly (loadArguments ts) := by
  match ts with
  | [] => exact absurd rfl hts.marked.ne_nil
  | t :: rest =>
    rw [loadArguments.eq_def]
    dsimp only
    split
    · exact orderly_ok _
    · split
      · next hcomma =>
        have hrest := hts.of_cons (by simp [hcomma])
        match rest with
        | [] => exact orderly_failBefore (by simp)
        | u :: behind =>
          dsimp only
          split
          · exact orderly_ok _
          · refine (argument_orderly (u :: behind) hrest).bind fun first hfirst => ?_
            have hmid : first.rest.length < behind.length + 1 := first.shorter
            have hbehind := (argument_sound (u :: behind) hrest.spelled (v := first.value)
              ⟨first.shorter, hfirst⟩).readable hrest
            exact (loadArguments_orderly first.rest hbehind).bind fun _ _ => orderly_ok _
      · exact orderly_failAt (by simp)
termination_by ts.length

theorem load_orderly (start : Position) {ts : List Token} (hts : Readable ts) :
    Orderly (load start ts) := by
  unfold load
  cases ts with
  | nil => exact absurd rfl hts.marked.ne_nil
  | cons module rest =>
    dsimp only
    split
    · next hmodule =>
      have hrest := hts.of_cons (by simp [hmodule])
      exact (loadArguments_orderly rest hrest).bind fun _ _ => orderly_ok _
    · exact orderly_failAt (by simp)

theorem assignment_orderly {ts : List Token} (hts : Readable ts) : Orderly (assignment ts) := by
  unfold assignment
  refine (expression_orderly 0 ts hts).bind fun target htarget => ?_
  have hrest := readable_of_expression hts (v := target.value) ⟨target.shorter, htarget⟩
  dsimp only
  split
  · exact orderly_ok _
  · next sign rest heq =>
    rw [heq] at hrest
    split
    · next hsign =>
      have hbehind := hrest.of_cons (by rcases hsign with h | h <;> simp [h])
      exact (expression_orderly 0 rest hbehind).bind fun _ _ => orderly_ok _
    · exact orderly_ok _

theorem statement_orderly {ts : List Token} (hts : Readable ts) : Orderly (statement ts) := by
  unfold statement
  cases ts with
  | nil => exact absurd rfl hts.marked.ne_nil
  | cons t rest =>
    dsimp only
    split
    · exact orderly_failAt (by simp)
    · cases rest with
      | nil => exact assignment_orderly hts
      | cons next behind =>
        dsimp only
        split
        · next hload =>
          have hbehind := (hts.of_cons (by simp [hload])).of_cons (by simp [hload])
          exact (load_orderly t.span.start hbehind).bind fun _ _ => orderly_ok _
        · exact assignment_orderly hts

theorem checkEnd_orderly (ts : List Token) : Orderly (checkEnd ts) := by
  unfold checkEnd
  split
  · exact orderly_ok _
  · split
    · exact orderly_ok _
    · exact orderly_failAt (by simp)

/-- **A file whose end is marked never breaks off right behind an item.** -/
theorem statements_orderly (ts : List Token) (hts : Readable ts) : Orderly (statements ts) := by
  match ts with
  | [] => exact absurd rfl hts.marked.ne_nil
  | t :: rest =>
    rw [statements]
    split
    · next hsep =>
      exact statements_orderly rest (hts.of_cons (by rcases hsep with h | h <;> simp [h]))
    · split
      · exact orderly_ok _
      · refine (statement_orderly hts).bind fun first hfirst => ?_
        have hmid : first.rest.length < rest.length + 1 := first.shorter
        refine (checkEnd_orderly first.rest).bind fun _ _ => ?_
        obtain ⟨used, heq, hd⟩ := statement_sound hts.spelled (v := first.value)
          ⟨first.shorter, hfirst⟩
        have hbehind := Readable.of_append (heq ▸ hts) hd.isInner.2
        exact (statements_orderly first.rest hbehind).bind fun _ _ => orderly_ok _
termination_by ts.length

end StarlarkLint.Grammar
