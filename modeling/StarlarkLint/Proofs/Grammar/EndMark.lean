import StarlarkLint.Proofs.Grammar.Recognition

/-!
# Nothing is read behind the mark for the end

A list of tokens may go on behind a token that marks the end of the file.  Two such lists that
differ behind the mark only are read side by side: every reader yields the same from both and leaves
the mark, or refuses both with the same error, which was noticed at a token up to the mark or else
says that a sequence is not closed.

One look goes too far.  A sign is taken for the operator that its text names, and the operator
`not in` for two tokens, so that a sign with this text takes the mark if it stands in front of it.
No text has such a token.

## Main definitions

* `Grammar.NoticedIn` — where an error was noticed among the tokens.
* `Grammar.EndsSingly` — the last token in front of the mark is taken for one.
* `Grammar.Agrees` — two runs of a reader, up to the mark.

## Main results

* `Grammar.expression_agrees`, `Grammar.statement_agrees` — values and statements.
* `Grammar.ofTokens_upTo_mark` — files.
-/

namespace StarlarkLint.Grammar

/-- The error was noticed at one of the tokens, whose place it reports, and is neither about a
sequence that is not closed nor about tokens that end behind an item; or it says that a sequence is
not closed, and reports no place. -/
def NoticedIn (ts : List Token) (e : ParseError) : Prop :=
  (∃ t ∈ ts, e.token = some t ∧ e.line = t.span.start.line ∧ e.column = t.span.start.column ∧
    ∀ closer, e.problem ≠ .sequenceUnclosed closer ∧ e.problem ≠ .endsBehindItem closer) ∨
  ∃ kind : Sequence, e.problem = .sequenceUnclosed kind.closer ∧ e.token = none ∧
    e.line = 0 ∧ e.column = 0

theorem NoticedIn.mono {ts us : List Token} {e : ParseError} (h : NoticedIn ts e) (hsub : ts ⊆ us) :
    NoticedIn us e := by
  rcases h with ⟨t, ht, hplace⟩ | hopen
  · exact .inl ⟨t, hsub ht, hplace⟩
  · exact .inr hopen

/-- The last token is not a sign that is taken for the two tokens of `not in`. -/
def EndsSingly (before : List Token) : Prop :=
  ∀ t ∈ before.getLast?, t.kind ∈ Operator.signKinds → t.value ≠ "not in"

theorem EndsSingly.of_suffix {before rest : List Token} (h : EndsSingly before)
    (hrest : rest <:+ before) : EndsSingly rest := by
  obtain ⟨used, rfl⟩ := hrest
  intro t ht
  refine h t ?_
  rw [List.getLast?_append, Option.mem_def.mp ht]
  rfl

theorem EndsSingly.of_cons {t : Token} {rest : List Token} (h : EndsSingly (t :: rest)) :
    EndsSingly rest :=
  h.of_suffix (List.suffix_cons t rest)

section

variable {α β : Type} {stop : Token} {after after' before : List Token} {n n' m m' : Nat}

/-! ### Two runs -/

/-- Two runs of a reader over the tokens in front of the mark, which go on differently behind it:
both yield the same and leave the mark, or both fail with the same error, noticed up to the mark. -/
inductive Agrees (stop : Token) (after after' before : List Token) (r : Reading α n)
    (r' : Reading α n') : Prop
  /-- Both succeed. -/
  | yields {v : α} {rest : List Token} (hrest : rest <:+ before)
      (h : Yields r v (rest ++ stop :: after)) (h' : Yields r' v (rest ++ stop :: after'))
  /-- Both fail. -/
  | fails {e : ParseError} (h : r = .error e) (h' : r' = .error e)
      (hnoticed : NoticedIn (before ++ [stop]) e)

theorem agrees_ok {v : α} {rest : List Token} (hrest : rest <:+ before)
    {h : (rest ++ stop :: after).length < n} {h' : (rest ++ stop :: after').length < n'} :
    Agrees stop after after' before (.ok ⟨v, rest ++ stop :: after, h⟩ : Reading α n)
      (.ok ⟨v, rest ++ stop :: after', h'⟩ : Reading α n') :=
  .yields hrest ⟨h, rfl⟩ ⟨h', rfl⟩

theorem agrees_failAt {t : Token} {problem : ParseProblem} (ht : t ∈ before ++ [stop])
    (hproblem : ∀ closer,
      problem ≠ .sequenceUnclosed closer ∧ problem ≠ .endsBehindItem closer) :
    Agrees stop after after' before (failAt t problem : Reading α n)
      (failAt t problem : Reading α n') :=
  .fails rfl rfl (.inl ⟨t, ht, rfl, rfl, rfl, hproblem⟩)

theorem agrees_sequenceUnclosed (kind : Sequence) :
    Agrees stop after after' before
      (failBefore [] (.sequenceUnclosed kind.closer) : Reading α n)
      (failBefore [] (.sequenceUnclosed kind.closer) : Reading α n') :=
  .fails rfl rfl (.inr ⟨kind, rfl, rfl, rfl, rfl⟩)

theorem subset_upTo_mark (stop : Token) {rest : List Token} (hrest : rest <:+ before) :
    rest ++ [stop] ⊆ before ++ [stop] := by
  intro t ht
  rw [List.mem_append] at ht ⊢
  exact ht.imp_left fun hmem => hrest.subset hmem

/-- What holds behind some of the tokens holds of all of them. -/
theorem Agrees.of_suffix {rest : List Token} {r : Reading α n} {r' : Reading α n'}
    (h : Agrees stop after after' rest r r') (hrest : rest <:+ before) :
    Agrees stop after after' before r r' := by
  cases h with
  | yields hmid h h' => exact .yields (hmid.trans hrest) h h'
  | fails h h' hnoticed =>
    exact .fails h h' (hnoticed.mono (subset_upTo_mark stop hrest))

/-- One reader behind another. -/
theorem Agrees.bind {r : Reading α n} {r' : Reading α n'} {k : Parsed α n → Reading β m}
    {k' : Parsed α n' → Reading β m'} (hr : Agrees stop after after' before r r')
    (hk : ∀ v rest h h', rest <:+ before → Agrees stop after after' before
      (k ⟨v, rest ++ stop :: after, h⟩) (k' ⟨v, rest ++ stop :: after', h'⟩)) :
    Agrees stop after after' before (r >>= k) (r' >>= k') := by
  cases hr with
  | yields hrest h h' =>
    obtain ⟨hlt, rfl⟩ := h
    obtain ⟨hlt', rfl⟩ := h'
    exact hk _ _ hlt hlt' hrest
  | fails h h' hnoticed =>
    subst h h'
    exact .fails rfl rfl hnoticed

/-- A condition that is the same for both. -/
theorem Agrees.ite {p : Prop} [Decidable p] {r s : Reading α n} {r' s' : Reading α n'}
    (hpos : p → Agrees stop after after' before r r')
    (hneg : ¬ p → Agrees stop after after' before s s') :
    Agrees stop after after' before (if p then r else s) (if p then r' else s') := by
  by_cases h : p
  · rw [if_pos h, if_pos h]
    exact hpos h
  · rw [if_neg h, if_neg h]
    exact hneg h

theorem length_lt_of_shorter {rest : List Token}
    (h : (rest ++ stop :: after).length < (before ++ stop :: after).length) :
    rest.length < before.length := by
  simpa using h

/-- The operator in front does not depend on what follows the mark. -/
theorem binary?_upTo_mark (t : Token) (rest : List Token) :
    Operator.binary? t (rest ++ stop :: after) = Operator.binary? t (rest ++ stop :: after') := by
  cases rest with
  | nil => simp [Operator.binary?, Operator.startsWithIn]
  | cons u rest => simp [Operator.binary?, Operator.startsWithIn]

/-! ### At the mark -/

variable (hstop : stop.kind = .endOfFile)
include hstop

theorem primary_stop : primary (stop :: after) = failAt stop (.unexpectedToken stop.value) := by
  rw [primary, hstop]

theorem unary_stop : unary (stop :: after) = failAt stop (.unexpectedToken stop.value) := by
  rw [unary, if_neg (by simp [hstop]), primary_stop hstop]
  rfl

theorem expression_stop (level : Nat) :
    expression level (stop :: after) = failAt stop (.unexpectedToken stop.value) := by
  rw [expression, if_neg (by simp [isNot, hstop])]
  split
  · next hlt =>
    have hlevel : level < 6 := hlt
    rw [expression_stop (level + 1)]
    rfl
  · exact unary_stop hstop
termination_by 6 - level

theorem argument_stop : argument (stop :: after) = failAt stop (.unexpectedToken stop.value) := by
  rw [argument.eq_def]
  dsimp only
  rw [if_neg (by simp [hstop])]
  cases after with
  | nil => exact expression_stop hstop 0
  | cons sign behind =>
    dsimp only
    rw [if_neg (by simp [isKeywordArgument, hstop])]
    exact expression_stop hstop 0

/-- The tokens of an operator stand in front of the mark. -/
theorem width_le_length {t : Token} {rest : List Token} {op : String}
    (hts : EndsSingly (t :: rest)) (hop : Operator.binary? t (rest ++ stop :: after) = some op) :
    Operator.width op - 1 ≤ rest.length := by
  cases rest with
  | cons u rest =>
    unfold Operator.width
    split <;> simp
  | nil =>
    suffices hne : op ≠ "not in" by simp [Operator.width, hne]
    rintro rfl
    unfold Operator.binary? at hop
    split at hop
    · split at hop
      · simp [Operator.startsWithIn, hstop] at hop
      · split at hop
        · next hmem =>
          rw [Option.some.inj hop] at hmem
          exact absurd hmem (by decide)
        · cases hop
    · split at hop
      · next hsign => exact hts t rfl hsign (Option.some.inj hop)
      · cases hop

/-- The strings in front do not depend on what follows the mark. -/
theorem strings_upTo_mark (after rest : List Token) :
    (rest ++ stop :: after).takeWhile (·.kind = .string) = rest.takeWhile (·.kind = .string) ∧
      (rest ++ stop :: after).drop
          ((rest ++ stop :: after).takeWhile (·.kind = .string)).length =
        rest.drop (rest.takeWhile (·.kind = .string)).length ++ stop :: after := by
  have htake : (rest ++ stop :: after).takeWhile (·.kind = .string) =
      rest.takeWhile (·.kind = .string) := by
    induction rest with
    | nil => simp [hstop]
    | cons t rest ih => simp only [List.cons_append, List.takeWhile_cons, ih]
  rw [htake]
  exact ⟨rfl, List.drop_append_of_le_length (List.takeWhile_sublist _).length_le⟩

theorem closer_ne_mark (kind : Sequence) : stop.kind ≠ kind.closer := by
  rw [hstop]
  cases kind <;> decide

/-! ### Values -/

set_option linter.unusedSectionVars false in
mutual

theorem expression_agrees (level : Nat) (before : List Token) (hbefore : EndsSingly before) :
    Agrees stop after after' before (expression level (before ++ stop :: after))
      (expression level (before ++ stop :: after')) := by
  match before with
  | [] =>
    rw [List.nil_append, List.nil_append, expression_stop hstop, expression_stop hstop]
    exact agrees_failAt (by simp) (by simp)
  | t :: rest =>
    rw [List.cons_append, List.cons_append, expression.eq_def _ (t :: (rest ++ stop :: after)),
      expression.eq_def _ (t :: (rest ++ stop :: after'))]
    dsimp only
    refine .ite (fun hnot => ?_) fun hnot => ?_
    · have hoperand := expression_agrees level rest hbefore.of_cons
      exact (hoperand.of_suffix (List.suffix_cons t rest)).bind fun _ _ _ _ hmid => agrees_ok hmid
    · by_cases hlt : level < Operator.levelCount
      · rw [dif_pos hlt, dif_pos hlt]
        have hlevel : level < 6 := hlt
        refine (expression_agrees (level + 1) (t :: rest) hbefore).bind fun left mid h _ hmid => ?_
        have hlen : mid.length < rest.length + 1 := length_lt_of_shorter h
        have hwhole := operation_agrees level left mid (hbefore.of_suffix hmid)
        exact (hwhole.of_suffix hmid).bind fun _ _ _ _ hout => agrees_ok hout
      · rw [dif_neg hlt, dif_neg hlt]
        exact unary_agrees (t :: rest) hbefore
termination_by 16 * before.length + (6 - level) + 3

theorem operation_agrees (level : Nat) (left : Node) (before : List Token)
    (hbefore : EndsSingly before) :
    Agrees stop after after' before (operation level left (before ++ stop :: after))
      (operation level left (before ++ stop :: after')) := by
  match before with
  | [] =>
    have hnone : ∀ ts, Operator.binary? stop ts = none := by
      simp [Operator.binary?, hstop, Operator.signKinds]
    rw [List.nil_append, List.nil_append, operation, operation, hnone, hnone]
    exact agrees_ok (List.suffix_refl [])
  | t :: rest =>
    rw [List.cons_append, List.cons_append, operation.eq_def _ _ (t :: (rest ++ stop :: after)),
      operation.eq_def _ _ (t :: (rest ++ stop :: after'))]
    dsimp only
    have hlook : Operator.binary? t (rest ++ stop :: after') =
        Operator.binary? t (rest ++ stop :: after) := binary?_upTo_mark t rest
    rw [hlook]
    cases hop : Operator.binary? t (rest ++ stop :: after) with
    | none => exact agrees_ok (List.suffix_refl (t :: rest))
    | some op =>
      dsimp only
      refine .ite (fun hmem => ?_) fun hmem => ?_
      · -- the tokens of the operator stand in front of the mark, and the operand starts there too
        have hwidth := width_le_length hstop hbefore hop
        have hsuffix : rest.drop (Operator.width op - 1) <:+ t :: rest :=
          (List.drop_suffix ..).trans (List.suffix_cons t rest)
        have hright : Agrees stop after after' (rest.drop (Operator.width op - 1))
            (expression (level + 1) ((rest ++ stop :: after).drop (Operator.width op - 1)))
            (expression (level + 1) ((rest ++ stop :: after').drop (Operator.width op - 1))) := by
          rw [List.drop_append_of_le_length hwidth, List.drop_append_of_le_length hwidth]
          have hdrop : (rest.drop (Operator.width op - 1)).length ≤ rest.length := by simp
          exact expression_agrees (level + 1) _ (hbefore.of_suffix hsuffix)
        refine (hright.of_suffix hsuffix).bind fun right mid h _ hmid => ?_
        have hlen : mid.length < rest.length + 1 := by
          simp only [List.length_append, List.length_cons, List.length_drop] at h
          omega
        have hwhole := operation_agrees level
          (.binary ⟨left.span.start, right.span.stop⟩ op left right) mid (hbefore.of_suffix hmid)
        exact (hwhole.of_suffix hmid).bind fun _ _ _ _ hout => agrees_ok hout
      · exact agrees_ok (List.suffix_refl (t :: rest))
termination_by 16 * before.length

theorem unary_agrees (before : List Token) (hbefore : EndsSingly before) :
    Agrees stop after after' before (unary (before ++ stop :: after))
      (unary (before ++ stop :: after')) := by
  match before with
  | [] =>
    rw [List.nil_append, List.nil_append, unary_stop hstop, unary_stop hstop]
    exact agrees_failAt (by simp) (by simp)
  | t :: rest =>
    rw [List.cons_append, List.cons_append, unary.eq_def (t :: (rest ++ stop :: after)),
      unary.eq_def (t :: (rest ++ stop :: after'))]
    dsimp only
    refine .ite (fun hsign => ?_) fun hsign => ?_
    · have hoperand := unary_agrees rest hbefore.of_cons
      exact (hoperand.of_suffix (List.suffix_cons t rest)).bind fun _ _ _ _ hmid => agrees_ok hmid
    · refine (primary_agrees (t :: rest) hbefore).bind fun base mid h _ hmid => ?_
      have hlen : mid.length < rest.length + 1 := length_lt_of_shorter h
      have hwhole := postfixes_agrees base mid (hbefore.of_suffix hmid)
      exact (hwhole.of_suffix hmid).bind fun _ _ _ _ hout => agrees_ok hout
termination_by 16 * before.length + 2

theorem postfixes_agrees (base : Node) (before : List Token) (hbefore : EndsSingly before) :
    Agrees stop after after' before (postfixes base (before ++ stop :: after))
      (postfixes base (before ++ stop :: after')) := by
  match before with
  | [] =>
    rw [List.nil_append, List.nil_append, postfixes.eq_def, postfixes.eq_def]
    dsimp only
    rw [if_neg (by simp [hstop]), if_neg (by simp [hstop]), if_neg (by simp [hstop]),
      if_neg (by simp [hstop])]
    exact agrees_ok (List.suffix_refl [])
  | t :: rest =>
    rw [List.cons_append, List.cons_append, postfixes.eq_def _ (t :: (rest ++ stop :: after)),
      postfixes.eq_def _ (t :: (rest ++ stop :: after'))]
    dsimp only
    refine .ite (fun hdot => ?_) fun hdot => ?_
    · match rest with
      | [] =>
        dsimp only [List.nil_append]
        rw [if_neg (by simp [hstop]), if_neg (by simp [hstop])]
        exact agrees_failAt (by simp) (by simp)
      | name :: behind =>
        dsimp only [List.cons_append]
        refine .ite (fun hname => ?_) fun hname => ?_
        · have hwhole := postfixes_agrees
            (.member ⟨base.span.start, name.span.stop⟩ base name.value) behind
            hbefore.of_cons.of_cons
          have hsuffix : behind <:+ t :: name :: behind := List.suffix_append [t, name] behind
          exact (hwhole.of_suffix hsuffix).bind fun _ _ _ _ hout => agrees_ok hout
        · exact agrees_failAt (by simp) (by simp)
    · refine .ite (fun hparen => ?_) fun hparen => ?_
      · have hargs := sequence_agrees .arguments rest hbefore.of_cons
        refine (hargs.of_suffix (List.suffix_cons t rest)).bind fun args mid h _ hmid => ?_
        have hlen := length_lt_of_shorter h
        have hwhole := postfixes_agrees (.call ⟨base.span.start, args.2.span.stop⟩ base args.1) mid
          (hbefore.of_suffix hmid)
        exact (hwhole.of_suffix hmid).bind fun _ _ _ _ hout => agrees_ok hout
      · exact agrees_ok (List.suffix_refl (t :: rest))
termination_by 16 * before.length

theorem primary_agrees (before : List Token) (hbefore : EndsSingly before) :
    Agrees stop after after' before (primary (before ++ stop :: after))
      (primary (before ++ stop :: after')) := by
  match before with
  | [] =>
    rw [List.nil_append, List.nil_append, primary_stop hstop, primary_stop hstop]
    exact agrees_failAt (by simp) (by simp)
  | t :: rest =>
    rw [List.cons_append, List.cons_append, primary.eq_def (t :: (rest ++ stop :: after)),
      primary.eq_def (t :: (rest ++ stop :: after'))]
    dsimp only
    have hrest := hbefore.of_cons
    have hsuffix := List.suffix_cons t rest
    cases t.kind with
    | identifier =>
      dsimp only
      refine .ite (fun hreserved => ?_) fun hreserved => ?_
      · exact agrees_failAt (by simp) (by simp)
      · exact agrees_ok hsuffix
    | string =>
      obtain ⟨htake, hdrop⟩ := strings_upTo_mark hstop after rest
      obtain ⟨htake', hdrop'⟩ := strings_upTo_mark hstop after' rest
      exact .yields ((List.drop_suffix ..).trans hsuffix)
        (yields_ok.mpr ⟨congrArg (joinStrings t) htake, hdrop⟩)
        (yields_ok.mpr ⟨congrArg (joinStrings t) htake', hdrop'⟩)
    | number => exact agrees_ok hsuffix
    | lbracket =>
      have hitems := sequence_agrees .items rest hrest
      exact (hitems.of_suffix hsuffix).bind fun _ _ _ _ hmid => agrees_ok hmid
    | lbrace =>
      have hentries := sequence_agrees .entries rest hrest
      exact (hentries.of_suffix hsuffix).bind fun _ _ _ _ hmid => agrees_ok hmid
    | lparen =>
      have hinner := expression_agrees 0 rest hrest
      refine (hinner.of_suffix hsuffix).bind fun inner mid h h' hmid => ?_
      match mid with
      | [] =>
        dsimp only [List.nil_append]
        rw [if_neg (by simp [hstop]), if_neg (by simp [hstop])]
        exact agrees_failAt (by simp) (by simp)
      | close :: behind =>
        dsimp only [List.cons_append]
        refine .ite (fun hclose => ?_) fun hclose => ?_
        · exact agrees_ok ((List.suffix_cons close behind).trans hmid)
        · exact agrees_failAt (List.mem_append_left _ (hmid.subset List.mem_cons_self)) (by simp)
    | _ => exact agrees_failAt (by simp) (by simp)
termination_by 16 * before.length + 1

theorem argument_agrees (before : List Token) (hbefore : EndsSingly before) :
    Agrees stop after after' before (argument (before ++ stop :: after))
      (argument (before ++ stop :: after')) := by
  match before with
  | [] =>
    rw [List.nil_append, List.nil_append, argument_stop hstop, argument_stop hstop]
    exact agrees_failAt (by simp) (by simp)
  | t :: rest =>
    rw [List.cons_append, List.cons_append, argument.eq_def (t :: (rest ++ stop :: after)),
      argument.eq_def (t :: (rest ++ stop :: after'))]
    dsimp only
    refine .ite (fun hstar => ?_) fun hstar => ?_
    · have hoperand := expression_agrees 0 rest hbefore.of_cons
      exact (hoperand.of_suffix (List.suffix_cons t rest)).bind fun _ _ _ _ hmid => agrees_ok hmid
    · match rest with
      | [] =>
        dsimp only [List.nil_append]
        have hsign : ¬ isKeywordArgument t stop := by simp [isKeywordArgument, hstop]
        rw [if_neg hsign, if_neg hsign]
        exact expression_agrees 0 [t] hbefore
      | sign :: behind =>
        dsimp only [List.cons_append]
        refine .ite (fun hsign => ?_) fun hsign => ?_
        · have hvalue := expression_agrees 0 behind hbefore.of_cons.of_cons
          have hsuffix : behind <:+ t :: sign :: behind := List.suffix_append [t, sign] behind
          exact (hvalue.of_suffix hsuffix).bind fun _ _ _ _ hmid => agrees_ok hmid
        · exact expression_agrees 0 (t :: sign :: behind) hbefore
termination_by 16 * before.length + 10

theorem entry_agrees (before : List Token) (hbefore : EndsSingly before) :
    Agrees stop after after' before (entry (before ++ stop :: after))
      (entry (before ++ stop :: after')) := by
  rw [entry.eq_def (before ++ stop :: after), entry.eq_def (before ++ stop :: after')]
  refine (expression_agrees 0 before hbefore).bind fun key mid h h' hmid => ?_
  match mid with
  | [] =>
    dsimp only [List.nil_append]
    rw [if_neg (by simp [hstop]), if_neg (by simp [hstop])]
    exact agrees_failAt (by simp) (by simp)
  | colon :: rest =>
    dsimp only [List.cons_append]
    refine .ite (fun hcolon => ?_) fun hcolon => ?_
    · have hlen : rest.length + 1 < before.length := length_lt_of_shorter h
      have hvalue := expression_agrees 0 rest (hbefore.of_suffix hmid).of_cons
      refine (hvalue.of_suffix ((List.suffix_cons colon rest).trans hmid)).bind ?_
      exact fun _ _ _ _ hout => agrees_ok hout
    · exact agrees_failAt (List.mem_append_left _ (hmid.subset List.mem_cons_self)) (by simp)
termination_by 16 * before.length + 10

theorem item_agrees (kind : Sequence) (before : List Token) (hbefore : EndsSingly before) :
    Agrees stop after after' before (item kind (before ++ stop :: after))
      (item kind (before ++ stop :: after')) := by
  rw [item.eq_def _ (before ++ stop :: after), item.eq_def _ (before ++ stop :: after')]
  match kind with
  | .arguments => exact argument_agrees before hbefore
  | .items => exact expression_agrees 0 before hbefore
  | .entries => exact entry_agrees before hbefore
termination_by 16 * before.length + 11

theorem sequence_agrees (kind : Sequence) (before : List Token) (hbefore : EndsSingly before) :
    Agrees stop after after' before (sequence kind (before ++ stop :: after))
      (sequence kind (before ++ stop :: after')) := by
  match before with
  | [] =>
    rw [List.nil_append, List.nil_append, sequence, sequence, if_neg (closer_ne_mark hstop kind),
      if_neg (closer_ne_mark hstop kind), if_pos hstop, if_pos hstop]
    exact agrees_sequenceUnclosed kind
  | t :: rest =>
    rw [List.cons_append, List.cons_append, sequence.eq_def _ (t :: (rest ++ stop :: after)),
      sequence.eq_def _ (t :: (rest ++ stop :: after'))]
    dsimp only
    refine .ite (fun hclose => ?_) fun hclose => ?_
    · exact agrees_ok (List.suffix_cons t rest)
    · refine .ite (fun hend => ?_) fun hend => ?_
      · exact agrees_sequenceUnclosed kind
      · refine (item_agrees kind (t :: rest) hbefore).bind fun first mid h h' hmid => ?_
        match mid with
        | [] =>
          dsimp only [List.nil_append]
          have hcomma : stop.kind ≠ .comma := by simp [hstop]
          rw [if_neg hcomma, if_neg hcomma, if_neg (closer_ne_mark hstop kind),
            if_neg (closer_ne_mark hstop kind)]
          exact agrees_failAt (by simp) (by simp)
        | u :: behind =>
          dsimp only [List.cons_append]
          have hu : u ∈ t :: rest ++ [stop] :=
            List.mem_append_left _ (hmid.subset List.mem_cons_self)
          have hbehind := (List.suffix_cons u behind).trans hmid
          refine .ite (fun hcomma => ?_) fun hcomma => ?_
          · have hlen : behind.length + 1 < rest.length + 1 := length_lt_of_shorter h
            have hmore := sequence_agrees kind behind (hbefore.of_suffix hbehind)
            exact (hmore.of_suffix hbehind).bind fun _ _ _ _ hout => agrees_ok hout
          · refine .ite (fun hlast => ?_) fun hlast => ?_
            · exact agrees_ok hbehind
            · exact agrees_failAt hu (by simp)
termination_by 16 * before.length + 12

end

/-! ### Statements and files -/

theorem loadArguments_agrees (before : List Token) (hbefore : EndsSingly before) :
    Agrees stop after after' before (loadArguments (before ++ stop :: after))
      (loadArguments (before ++ stop :: after')) := by
  match before with
  | [] =>
    have hclose : stop.kind ≠ .rparen := by simp [hstop]
    have hcomma : stop.kind ≠ .comma := by simp [hstop]
    rw [List.nil_append, List.nil_append, loadArguments.eq_def, loadArguments.eq_def]
    dsimp only
    rw [if_neg hclose, if_neg hclose, if_neg hcomma, if_neg hcomma]
    exact agrees_failAt (by simp) (by simp)
  | t :: rest =>
    rw [List.cons_append, List.cons_append, loadArguments.eq_def (t :: (rest ++ stop :: after)),
      loadArguments.eq_def (t :: (rest ++ stop :: after'))]
    dsimp only
    refine .ite (fun hclose => ?_) fun hclose => ?_
    · exact agrees_ok (List.suffix_cons t rest)
    · refine .ite (fun hcomma => ?_) fun hcomma => ?_
      · match rest with
        | [] =>
          dsimp only [List.nil_append]
          rw [if_neg (by simp [hstop]), if_neg (by simp [hstop]), argument_stop hstop,
            argument_stop hstop]
          exact agrees_failAt (by simp) (by simp)
        | u :: behind =>
          dsimp only [List.cons_append]
          have hsuffix := List.suffix_cons t (u :: behind)
          refine .ite (fun hu => ?_) fun hu => ?_
          · exact agrees_ok ((List.suffix_cons u behind).trans hsuffix)
          · refine ((argument_agrees hstop (u :: behind) hbefore.of_cons).of_suffix hsuffix).bind
              fun first mid h _ hmid => ?_
            have hlen : mid.length < behind.length + 1 := length_lt_of_shorter h
            have hmore := loadArguments_agrees mid (hbefore.of_suffix hmid)
            exact (hmore.of_suffix hmid).bind fun _ _ _ _ hout => agrees_ok hout
      · exact agrees_failAt (by simp) (by simp)
termination_by before.length

theorem load_agrees (start : Position) (hbefore : EndsSingly before) :
    Agrees stop after after' before (load start (before ++ stop :: after))
      (load start (before ++ stop :: after')) := by
  unfold load
  cases before with
  | nil =>
    have hmodule : stop.kind ≠ .string := by simp [hstop]
    dsimp only [List.nil_append]
    rw [if_neg hmodule, if_neg hmodule]
    exact agrees_failAt (by simp) (by simp)
  | cons module rest =>
    dsimp only [List.cons_append]
    refine .ite (fun hmodule => ?_) fun hmodule => ?_
    · exact ((loadArguments_agrees hstop rest hbefore.of_cons).of_suffix
        (List.suffix_cons module rest)).bind fun _ _ _ _ hmid => agrees_ok hmid
    · exact agrees_failAt (by simp) (by simp)

theorem assignment_agrees (hbefore : EndsSingly before) :
    Agrees stop after after' before (assignment (before ++ stop :: after))
      (assignment (before ++ stop :: after')) := by
  unfold assignment
  refine (expression_agrees hstop 0 before hbefore).bind fun target mid _ _ hmid => ?_
  cases mid with
  | nil =>
    have hsign : ¬ (stop.kind = .equals ∨ stop.kind = .plusEquals) := by simp [hstop]
    dsimp only [List.nil_append]
    rw [if_neg hsign, if_neg hsign]
    exact agrees_ok hmid
  | cons sign behind =>
    dsimp only [List.cons_append]
    refine .ite (fun hsign => ?_) fun hsign => ?_
    · have hbehind := (List.suffix_cons sign behind).trans hmid
      exact ((expression_agrees hstop 0 behind (hbefore.of_suffix hbehind)).of_suffix hbehind).bind
        fun _ _ _ _ hout => agrees_ok hout
    · exact agrees_ok hmid

theorem statement_agrees {t : Token} {rest : List Token} (hbefore : EndsSingly (t :: rest)) :
    Agrees stop after after' (t :: rest) (statement (t :: rest ++ stop :: after))
      (statement (t :: rest ++ stop :: after')) := by
  unfold statement
  dsimp only [List.cons_append]
  refine .ite (fun hreserved => ?_) fun hreserved => ?_
  · exact agrees_failAt (by simp) (by simp)
  · have hassignment : Agrees stop after after' (t :: rest)
        (assignment (t :: rest ++ stop :: after)) (assignment (t :: rest ++ stop :: after')) :=
      assignment_agrees hstop hbefore
    cases rest with
    | nil =>
      have hload : ¬ (t.kind = .identifier ∧ t.value = "load" ∧ stop.kind = .lparen) := by
        simp [hstop]
      dsimp only [List.nil_append]
      rw [if_neg hload, if_neg hload]
      exact hassignment
    | cons next behind =>
      dsimp only [List.cons_append]
      refine .ite (fun hload => ?_) fun hload => ?_
      · have hsuffix : behind <:+ t :: next :: behind := List.suffix_append [t, next] behind
        exact ((load_agrees hstop t.span.start hbefore.of_cons.of_cons).of_suffix hsuffix).bind
          fun _ _ _ _ hmid => agrees_ok hmid
      · exact hassignment

theorem checkEnd_upTo_mark (after after' mid : List Token) :
    checkEnd (mid ++ stop :: after) = checkEnd (mid ++ stop :: after') ∧
      ∀ e, checkEnd (mid ++ stop :: after) = .error e → NoticedIn (mid ++ [stop]) e := by
  cases mid with
  | nil =>
    have hend : endsStatement stop := by simp [endsStatement, hstop]
    simp [checkEnd, hend]
  | cons t rest =>
    refine ⟨rfl, fun e he => ?_⟩
    rw [List.cons_append, checkEnd] at he
    split at he
    · cases he
    · cases he
      exact .inl ⟨t, by simp, rfl, rfl, rfl, by simp⟩

/-- The statements do not depend on what follows the mark, and an error is noticed up to it. -/
theorem statements_upTo_mark (before : List Token) (hbefore : EndsSingly before) :
    statements (before ++ stop :: after) = statements (before ++ stop :: after') ∧
      ∀ e, statements (before ++ stop :: after) = .error e → NoticedIn (before ++ [stop]) e := by
  match before with
  | [] =>
    have hsep : ¬ (stop.kind = .newline ∨ stop.kind = .semicolon) := by simp [hstop]
    rw [List.nil_append, List.nil_append, statements, statements, if_neg hsep, if_neg hsep,
      if_pos hstop, if_pos hstop]
    exact ⟨rfl, by simp⟩
  | t :: rest =>
    rw [List.cons_append, List.cons_append, statements.eq_def (t :: (rest ++ stop :: after)),
      statements.eq_def (t :: (rest ++ stop :: after'))]
    dsimp only
    by_cases hsep : t.kind = .newline ∨ t.kind = .semicolon
    · rw [if_pos hsep, if_pos hsep]
      obtain ⟨heq, hnoticed⟩ := statements_upTo_mark rest hbefore.of_cons
      exact ⟨heq, fun e he => (hnoticed e he).mono (List.subset_cons_self t _)⟩
    · rw [if_neg hsep, if_neg hsep]
      by_cases hend : t.kind = .endOfFile
      · rw [if_pos hend, if_pos hend]
        exact ⟨rfl, by simp⟩
      · rw [if_neg hend, if_neg hend]
        have hfirst : Agrees stop after after' (t :: rest) (statement (t :: rest ++ stop :: after))
            (statement (t :: rest ++ stop :: after')) := statement_agrees hstop hbefore
        rw [← List.cons_append, ← List.cons_append]
        cases hfirst with
        | fails h h' hnoticed =>
          rw [h, h']
          refine ⟨rfl, fun e he => ?_⟩
          cases he
          exact hnoticed
        | @yields v mid hmid h h' =>
          obtain ⟨hlt, h⟩ := h
          obtain ⟨hlt', h'⟩ := h'
          have hlen : mid.length < rest.length + 1 := length_lt_of_shorter hlt
          have hsubset := subset_upTo_mark stop hmid
          obtain ⟨hcheck, hcheckNoticed⟩ := checkEnd_upTo_mark hstop after after' mid
          obtain ⟨hmore, hmoreNoticed⟩ := statements_upTo_mark mid (hbefore.of_suffix hmid)
          rw [h, h']
          simp only [bind, Except.bind]
          rw [← hcheck, ← hmore]
          cases hend : checkEnd (mid ++ stop :: after) with
          | error e =>
            refine ⟨rfl, fun e' he => ?_⟩
            cases he
            exact (hcheckNoticed e hend).mono hsubset
          | ok u =>
            cases hstatements : statements (mid ++ stop :: after) with
            | error e =>
              refine ⟨rfl, fun e' he => ?_⟩
              cases he
              exact (hmoreNoticed e hstatements).mono hsubset
            | ok r => exact ⟨rfl, by simp⟩
termination_by before.length

end

/-- Where signs stand for themselves, none is taken for two tokens. -/
theorem SignsSpelled.endsSingly {before rest : List Token} (h : SignsSpelled (before ++ rest)) :
    EndsSingly before := by
  have hsigns : ∀ s ∈ signs, s.value ≠ "not in" := by decide
  intro t ht hkind
  exact hsigns _ (h t (List.mem_append_left rest (List.mem_of_getLast? ht)) hkind)

/-- What the tokens up to the mark spell is a file, or an error that was noticed among them, and
nothing behind the mark has a part in it. -/
theorem ofTokens_cases {before : List Token} {stop : Token} (hbefore : EndsSingly before)
    (hstop : stop.kind = .endOfFile) (path : String) (dialect : Dialect) :
    (∃ f, ∀ after, SourceFile.ofTokens path dialect (before ++ stop :: after) = .ok f) ∨
      ∃ e, NoticedIn (before ++ [stop]) e ∧
        ∀ after, SourceFile.ofTokens path dialect (before ++ stop :: after) = .error e := by
  have hsame : ∀ after, statements (before ++ stop :: after) = statements (before ++ [stop]) :=
    fun after => (statements_upTo_mark hstop before hbefore).1
  simp only [SourceFile.ofTokens, hsame]
  cases hr : statements (before ++ [stop]) with
  | ok r => exact .inl ⟨_, fun _ => rfl⟩
  | error e =>
    obtain ⟨-, hnoticed⟩ : statements (before ++ [stop]) = statements (before ++ [stop]) ∧ _ :=
      statements_upTo_mark hstop before hbefore
    exact .inr ⟨e, hnoticed e hr, fun _ => rfl⟩

/-- **Reading ends at the mark, with a file or with an error that is documented.**  Tokens with a
mark for the end of the file spell a file, or they are refused for something noticed at one of the
tokens up to the mark, whose place the error reports, or for a sequence that is not closed, with no
place; what follows the mark has no part in it.  So does every text, unless it has no tokens. -/
theorem ofTokens_upTo_mark :
    (∀ (before : List Token) (stop : Token), EndsSingly before → stop.kind = .endOfFile →
      ∀ (path : String) (dialect : Dialect),
        (∃ f, ∀ after, SourceFile.ofTokens path dialect (before ++ stop :: after) = .ok f) ∨
          ∃ e, NoticedIn (before ++ [stop]) e ∧
            ∀ after, SourceFile.ofTokens path dialect (before ++ stop :: after) = .error e) ∧
    ∀ (source path : String) (dialect : Option Dialect),
      (∃ f, SourceFile.parse source path dialect = .ok f) ∨
        (∃ e, SourceFile.parse source path dialect = .error (.lexical e)) ∨
          ∃ ts e, tokens source = .ok ts ∧ NoticedIn ts e ∧
            SourceFile.parse source path dialect = .error (.grammatical e) := by
  refine ⟨fun before stop hbefore hstop => ofTokens_cases hbefore hstop, ?_⟩
  intro source path dialect
  unfold SourceFile.parse
  cases hts : tokens source with
  | error e => exact .inr (.inl ⟨e, rfl⟩)
  | ok ts =>
    have hready := readable_of_tokensOf (tokensOf_of_tokens hts)
    obtain ⟨before, stop, rfl, hstop, -⟩ := hready.marked
    rcases ofTokens_cases hready.spelled.endsSingly hstop path
      (dialect.getD (.ofPath (.parse path))) with ⟨f, hf⟩ | ⟨e, hnoticed, he⟩
    · exact .inl ⟨f, by simp [hf, Except.mapError, bind, Except.bind]⟩
    · exact .inr (.inr ⟨_, e, rfl, hnoticed, by simp [he, Except.mapError, bind, Except.bind]⟩)

/-- A call that is not closed, in front of the mark. -/
def openCall : List Token :=
  [⟨.identifier, "f", ⟨⟨1, 1⟩, ⟨1, 2⟩⟩⟩, ⟨.lparen, "(", ⟨⟨1, 2⟩, ⟨1, 3⟩⟩⟩]

/-- A call that is not closed is refused, whatever follows the mark. -/
theorem ofTokens_openCall : EndsSingly openCall ∧
    ∃ e, NoticedIn (openCall ++ [⟨.endOfFile, "", ⟨⟨1, 3⟩, ⟨1, 3⟩⟩⟩]) e ∧ ∀ after,
      SourceFile.ofTokens "BUILD" .build (openCall ++ ⟨.endOfFile, "", ⟨⟨1, 3⟩, ⟨1, 3⟩⟩⟩ :: after) =
        .error e := by
  have hsingly : EndsSingly openCall := by simp [EndsSingly, openCall, Operator.signKinds]
  refine ⟨hsingly, ?_⟩
  rcases ofTokens_upTo_mark.1 openCall ⟨.endOfFile, "", ⟨⟨1, 3⟩, ⟨1, 3⟩⟩⟩ hsingly rfl "BUILD" .build
    with ⟨f, hf⟩ | herror
  · have hopen : SourceFile.ofTokens "BUILD" .build
        (openCall ++ [⟨.endOfFile, "", ⟨⟨1, 3⟩, ⟨1, 3⟩⟩⟩]) =
        .error { problem := .sequenceUnclosed .rparen } := by cbv
    rw [hf []] at hopen
    cases hopen
  · exact herror

/-- A call with a sign in front of the mark whose text is `not in`. -/
def signAtMark : List Token :=
  [⟨.identifier, "f", ⟨⟨1, 1⟩, ⟨1, 2⟩⟩⟩, ⟨.lparen, "(", ⟨⟨1, 2⟩, ⟨1, 3⟩⟩⟩,
   ⟨.identifier, "a", ⟨⟨1, 3⟩, ⟨1, 4⟩⟩⟩, ⟨.plus, "not in", ⟨⟨1, 5⟩, ⟨1, 11⟩⟩⟩,
   ⟨.endOfFile, "", ⟨⟨1, 11⟩, ⟨1, 11⟩⟩⟩]

/-- The sign takes the mark: a value behind the mark is read, and then no token is left where the
call should go on.  Without it, no token is left for the value. -/
theorem ofTokens_signAtMark : (∃ t ∈ signAtMark, t.kind = .endOfFile) ∧
    SourceFile.ofTokens "<unknown>" .generic
        (signAtMark ++ [⟨.identifier, "b", ⟨⟨1, 12⟩, ⟨1, 13⟩⟩⟩]) =
      .error { problem := .endsBehindItem .rparen } ∧
    SourceFile.ofTokens "<unknown>" .generic signAtMark = .error { problem := .unexpectedEnd } := by
  refine ⟨⟨_, List.mem_of_getLast? rfl, rfl⟩, ?_, ?_⟩
  · cbv
  · cbv

end StarlarkLint.Grammar
