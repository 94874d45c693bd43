import StarlarkLint.Grammar.Parser

/-!
# What readers yield

A reader that succeeds yields a value and the tokens it leaves.  Each reader of the grammar has one
lemma here that says when it yields what; whatever is proved about the successes of readers is
proved from these.

## Main definitions

* `Grammar.Yields` — a reader succeeds with a value and leaves these tokens.

## Main results

* `Grammar.Yields.shorter` — a reader that succeeds takes at least one token.
* `Grammar.yields_expression_cons`, …, `Grammar.yields_statement_cons` — the readers one by one.
-/

namespace StarlarkLint.Grammar

variable {α β : Type} {bound bound' : Nat}

/-- The reader succeeds with the value and leaves the tokens. -/
def Yields (r : Reading α bound) (value : α) (rest : List Token) : Prop :=
  ∃ h, r = .ok ⟨value, rest, h⟩

theorem Yields.shorter {r : Reading α bound} {v : α} {rest : List Token} (h : Yields r v rest) :
    rest.length < bound := h.1

/-- A reader yields one thing. -/
theorem Yields.unique {r : Reading α bound} {v w : α} {out out' : List Token}
    (h : Yields r v out) (h' : Yields r w out') : v = w ∧ out = out' := by
  obtain ⟨_, hv⟩ := h
  obtain ⟨_, hw⟩ := h'
  rw [hv] at hw
  cases hw
  exact ⟨rfl, rfl⟩

/-! ### Readers in a row -/

@[simp] theorem yields_ok {v w : α} {out rest : List Token} {h : rest.length < bound} :
    Yields (.ok ⟨w, rest, h⟩ : Reading α bound) v out ↔ w = v ∧ rest = out := by
  constructor
  · rintro ⟨_, heq⟩
    cases heq
    exact ⟨rfl, rfl⟩
  · rintro ⟨rfl, rfl⟩
    exact ⟨h, rfl⟩

@[simp] theorem not_yields_error {e : ParseError} {v : α} {out : List Token} :
    ¬ Yields (.error e : Reading α bound) v out := by
  simp [Yields]

@[simp] theorem not_yields_failAt {t : Token} {problem : ParseProblem} {v : α}
    {out : List Token} : ¬ Yields (failAt t problem : Reading α bound) v out := not_yields_error

@[simp] theorem not_yields_failBefore {ts : List Token} {problem : ParseProblem} {v : α}
    {out : List Token} : ¬ Yields (failBefore ts problem : Reading α bound) v out :=
  not_yields_error

/-- One reader behind another. -/
theorem yields_bind {r : Reading α bound} {k : Parsed α bound → Reading β bound'} {v : β}
    {out : List Token} {P : α → List Token → Prop}
    (hk : ∀ x mid h, Yields (k ⟨x, mid, h⟩) v out ↔ P x mid) :
    Yields (r >>= k) v out ↔ ∃ x mid, Yields r x mid ∧ P x mid := by
  constructor
  · intro h
    cases hr : r with
    | error e =>
      rw [hr] at h
      exact absurd h not_yields_error
    | ok p =>
      rw [hr] at h
      exact ⟨p.value, p.rest, ⟨p.shorter, rfl⟩, (hk _ _ p.shorter).mp h⟩
  · rintro ⟨x, mid, ⟨hmid, rfl⟩, hP⟩
    exact (hk x mid hmid).mpr hP

/-- One reader behind another that fails unless a token is left. -/
theorem yields_bind_cons {r : Reading α bound} {k : Parsed α bound → Reading β bound'} {v : β}
    {out : List Token} {P : α → Token → List Token → Prop}
    (hnil : ∀ x h, ¬ Yields (k ⟨x, [], h⟩) v out)
    (hcons : ∀ x t mid h, Yields (k ⟨x, t :: mid, h⟩) v out ↔ P x t mid) :
    Yields (r >>= k) v out ↔ ∃ x t mid, Yields r x (t :: mid) ∧ P x t mid := by
  rw [yields_bind (P := fun x mid => ∃ t rest, mid = t :: rest ∧ P x t rest)]
  · constructor
    · rintro ⟨x, _, h, t, mid, rfl, hP⟩
      exact ⟨x, t, mid, h, hP⟩
    · rintro ⟨x, t, mid, h, hP⟩
      exact ⟨x, _, h, t, mid, rfl, hP⟩
  · intro x mid h
    cases mid with
    | nil => simp [hnil]
    | cons t mid =>
      rw [hcons]
      constructor
      · intro hP
        exact ⟨t, mid, rfl, hP⟩
      · rintro ⟨_, _, heq, hP⟩
        cases heq
        exact hP

/-- A reader that makes something else of what another one yields, and leaves the same tokens. -/
theorem yields_map {r : Reading α bound} {k : Parsed α bound → Reading β bound'} {v : β}
    {out : List Token} {P : α → Prop}
    (hk : ∀ x mid h, Yields (k ⟨x, mid, h⟩) v out ↔ P x ∧ mid = out) :
    Yields (r >>= k) v out ↔ ∃ x, Yields r x out ∧ P x := by
  rw [yields_bind hk]
  constructor
  · rintro ⟨x, _, h, hP, rfl⟩
    exact ⟨x, h, hP⟩
  · rintro ⟨x, h, hP⟩
    exact ⟨x, out, h, hP, rfl⟩

/-- A reader that hands on what another one yields. -/
theorem yields_handOn {r : Reading α bound} {k : Parsed α bound → Reading α bound'} {v : α}
    {out : List Token} (hk : ∀ x mid h, Yields (k ⟨x, mid, h⟩) v out ↔ x = v ∧ mid = out) :
    Yields (r >>= k) v out ↔ Yields r v out := by
  rw [yields_map hk]
  simp

/-! ### Values -/

@[simp] theorem not_yields_expression_nil {level : Nat} {v : Node} {out : List Token} :
    ¬ Yields (expression level []) v out := by
  rw [expression]
  exact not_yields_failBefore

theorem yields_expression_cons {level : Nat} {t : Token} {rest : List Token} {v : Node}
    {out : List Token} : Yields (expression level (t :: rest)) v out ↔
      if isNot level t then
        ∃ x, Yields (expression level rest) x out ∧
          .unary ⟨t.span.start, x.span.stop⟩ "not" x = v
      else if level < Operator.levelCount then
        ∃ x mid, Yields (expression (level + 1) (t :: rest)) x mid ∧
          Yields (operation level x mid) v out
      else Yields (unary (t :: rest)) v out := by
  rw [expression]
  split
  · exact yields_map fun x mid h => yields_ok
  · split
    · exact yields_bind fun x mid h => yields_handOn fun y mid' h' => yields_ok
    · rfl

theorem yields_operation_nil {level : Nat} {left v : Node} {out : List Token} :
    Yields (operation level left []) v out ↔ left = v ∧ [] = out := by
  rw [operation]
  exact yields_ok

theorem yields_operation_cons {level : Nat} {left : Node} {t : Token} {rest : List Token}
    {v : Node} {out : List Token} : Yields (operation level left (t :: rest)) v out ↔
      (∃ op, Operator.binary? t rest = some op ∧ op ∈ Operator.atLevel level ∧
        ∃ y mid, Yields (expression (level + 1) (rest.drop (Operator.width op - 1))) y mid ∧
          Yields (operation level
            (.binary ⟨left.span.start, y.span.stop⟩ op left y) mid) v out) ∨
      (∀ op, Operator.binary? t rest = some op → op ∉ Operator.atLevel level) ∧
        left = v ∧ t :: rest = out := by
  rw [operation]
  split
  · next hop => simp [hop]
  · next op hop =>
    split
    · next hmem =>
      simp only [hop, Option.some.injEq, exists_eq_left', hmem, true_and, forall_eq',
        not_true_eq_false, false_and, or_false]
      exact yields_bind fun y mid h => yields_handOn fun z mid' h' => yields_ok
    · next hmem => simp [hop, hmem]

@[simp] theorem not_yields_unary_nil {v : Node} {out : List Token} :
    ¬ Yields (unary []) v out := by
  rw [unary]
  exact not_yields_failBefore

theorem yields_unary_cons {t : Token} {rest : List Token} {v : Node} {out : List Token} :
    Yields (unary (t :: rest)) v out ↔
      if t.kind = .minus ∨ t.kind = .plus then
        ∃ x, Yields (unary rest) x out ∧ .unary ⟨t.span.start, x.span.stop⟩ t.value x = v
      else ∃ x mid, Yields (primary (t :: rest)) x mid ∧ Yields (postfixes x mid) v out := by
  rw [unary]
  split
  · exact yields_map fun x mid h => yields_ok
  · exact yields_bind fun x mid h => yields_handOn fun y mid' h' => yields_ok

theorem yields_postfixes_nil {base v : Node} {out : List Token} :
    Yields (postfixes base []) v out ↔ base = v ∧ [] = out := by
  rw [postfixes]
  exact yields_ok

theorem yields_postfixes_cons {base : Node} {t : Token} {rest : List Token} {v : Node}
    {out : List Token} : Yields (postfixes base (t :: rest)) v out ↔
      if t.kind = .dot then
        ∃ name behind, rest = name :: behind ∧ name.kind = .identifier ∧
          Yields (postfixes (.member ⟨base.span.start, name.span.stop⟩ base name.value) behind)
            v out
      else if t.kind = .lparen then
        ∃ args mid, Yields (sequence .arguments rest) args mid ∧
          Yields (postfixes (.call ⟨base.span.start, args.2.span.stop⟩ base args.1) mid) v out
      else base = v ∧ t :: rest = out := by
  rw [postfixes.eq_def]
  dsimp only
  split
  · cases rest with
    | nil => simp
    | cons name behind =>
      simp only [List.cons.injEq, and_assoc, exists_and_left, exists_eq_left']
      split
      · next hname =>
        rw [and_iff_right hname]
        exact yields_handOn fun x mid h => yields_ok
      · next hname => simp [hname]
  · split
    · exact yields_bind fun args mid h => yields_handOn fun x mid' h' => yields_ok
    · exact yields_ok

@[simp] theorem not_yields_primary_nil {v : Node} {out : List Token} :
    ¬ Yields (primary []) v out := by
  rw [primary]
  exact not_yields_failBefore

theorem yields_primary_cons {t : Token} {rest : List Token} {v : Node} {out : List Token} :
    Yields (primary (t :: rest)) v out ↔
      match t.kind with
      | .identifier => t.value ∉ reservedWords ∧ .ident t.span t.value = v ∧ rest = out
      | .string =>
        joinStrings t (rest.takeWhile (·.kind = .string)) = v ∧
          rest.drop (rest.takeWhile (·.kind = .string)).length = out
      | .number => .number t.span t.value = v ∧ rest = out
      | .lbracket =>
        ∃ items, Yields (sequence .items rest) items out ∧
          .list ⟨t.span.start, items.2.span.stop⟩ items.1 = v
      | .lbrace =>
        ∃ entries, Yields (sequence .entries rest) entries out ∧
          .dict ⟨t.span.start, entries.2.span.stop⟩ entries.1 = v
      | .lparen =>
        ∃ x close mid, Yields (expression 0 rest) x (close :: mid) ∧ close.kind = .rparen ∧
          x.withSpan ⟨t.span.start, close.span.stop⟩ = v ∧ mid = out
      | _ => False := by
  rw [primary]
  cases t.kind with
  | identifier =>
    by_cases hreserved : t.value ∈ reservedWords
    · simp [hreserved]
    · simp [hreserved]
  | string => exact yields_ok
  | number => exact yields_ok
  | lbracket => exact yields_map fun items mid h => yields_ok
  | lbrace => exact yields_map fun entries mid h => yields_ok
  | lparen =>
    refine yields_bind_cons (fun x h => not_yields_failBefore) fun x close mid h => ?_
    by_cases hclose : close.kind = .rparen
    · simp [hclose]
    · simp [hclose]
  | _ => exact iff_of_false not_yields_failAt id

/-! ### Arguments, entries and sequences -/

@[simp] theorem not_yields_argument_nil {v : Node} {out : List Token} :
    ¬ Yields (argument []) v out := by
  rw [argument]
  exact not_yields_expression_nil

theorem yields_argument_cons {t : Token} {rest : List Token} {v : Node} {out : List Token} :
    Yields (argument (t :: rest)) v out ↔
      if t.kind = .star ∨ t.kind = .doubleStar then
        ∃ x, Yields (expression 0 rest) x out ∧
          .unary ⟨t.span.start, x.span.stop⟩ t.value x = v
      else
        (∃ sign behind, rest = sign :: behind ∧ isKeywordArgument t sign ∧
          ∃ x, Yields (expression 0 behind) x out ∧
            .assign ⟨t.span.start, x.span.stop⟩ (.ident t.span t.value) "=" x = v) ∨
        (∀ sign ∈ rest.head?, ¬ isKeywordArgument t sign) ∧
          Yields (expression 0 (t :: rest)) v out := by
  rw [argument.eq_def]
  dsimp only
  split
  · exact yields_map fun x mid h => yields_ok
  · cases rest with
    | nil => simp
    | cons sign behind =>
      simp only [List.cons.injEq, and_assoc, exists_and_left, exists_eq_left', List.head?_cons,
        Option.mem_def, Option.some.injEq, forall_eq']
      split
      · next hsign =>
        simp only [hsign, not_true_eq_false, false_and, or_false, true_and]
        exact yields_map fun x mid h => yields_ok
      · next hsign => simp [hsign]

theorem yields_entry {ts : List Token} {v : Node} {out : List Token} :
    Yields (entry ts) v out ↔
      ∃ key colon mid, Yields (expression 0 ts) key (colon :: mid) ∧ colon.kind = .colon ∧
        ∃ x, Yields (expression 0 mid) x out ∧
          .entry ⟨key.span.start, x.span.stop⟩ key x = v := by
  rw [entry]
  refine yields_bind_cons (fun key h => not_yields_failBefore) fun key colon mid h => ?_
  dsimp only
  split
  · next hcolon =>
    rw [and_iff_right hcolon]
    exact yields_map fun x mid h => yields_ok
  · next hcolon => simp [hcolon]

theorem yields_item {kind : Sequence} {ts : List Token} {v : Node} {out : List Token} :
    Yields (item kind ts) v out ↔
      match kind with
      | .arguments => Yields (argument ts) v out
      | .items => Yields (expression 0 ts) v out
      | .entries => Yields (entry ts) v out := by
  rw [item.eq_def]
  cases kind <;> rfl

@[simp] theorem not_yields_sequence_nil {kind : Sequence} {v : List Node × Token}
    {out : List Token} : ¬ Yields (sequence kind []) v out := by
  rw [sequence]
  exact not_yields_failBefore

theorem yields_sequence_cons {kind : Sequence} {t : Token} {rest : List Token}
    {v : List Node × Token} {out : List Token} :
    Yields (sequence kind (t :: rest)) v out ↔
      if t.kind = kind.closer then ([], t) = v ∧ rest = out
      else t.kind ≠ .endOfFile ∧
        ∃ x u mid, Yields (item kind (t :: rest)) x (u :: mid) ∧
          if u.kind = .comma then
            ∃ more, Yields (sequence kind mid) more out ∧ (x :: more.1, more.2) = v
          else u.kind = kind.closer ∧ ([x], u) = v ∧ mid = out := by
  rw [sequence]
  split
  · exact yields_ok
  · split
    · next hend => simp [hend]
    · next hend =>
      rw [and_iff_right hend]
      refine yields_bind_cons (fun x h => not_yields_failBefore) fun x u mid h => ?_
      dsimp only
      split
      · exact yields_map fun x mid h => yields_ok
      · split
        · next hclose => simp [hclose]
        · next hclose => simp [hclose]

/-! ### Statements -/

@[simp] theorem not_yields_loadArguments_nil {v : List Node × Token} {out : List Token} :
    ¬ Yields (loadArguments []) v out := by
  rw [loadArguments]
  exact not_yields_failBefore

theorem yields_loadArguments_cons {t : Token} {rest : List Token} {v : List Node × Token}
    {out : List Token} : Yields (loadArguments (t :: rest)) v out ↔
      if t.kind = .rparen then ([], t) = v ∧ rest = out
      else t.kind = .comma ∧ ∃ u behind, rest = u :: behind ∧
        if u.kind = .rparen then ([], u) = v ∧ behind = out
        else ∃ x mid, Yields (argument (u :: behind)) x mid ∧
          ∃ more, Yields (loadArguments mid) more out ∧ (x :: more.1, more.2) = v := by
  rw [loadArguments.eq_def]
  dsimp only
  split
  · exact yields_ok
  · split
    · next hcomma =>
      rw [and_iff_right hcomma]
      cases rest with
      | nil => simp
      | cons u behind =>
        simp only [List.cons.injEq, and_assoc, exists_and_left, exists_eq_left']
        split
        · exact yields_ok
        · refine yields_bind fun x mid h => ?_
          exact yields_map fun more mid' h' => yields_ok
    · next hcomma => simp [hcomma]

theorem yields_load {start : Position} {ts : List Token} {v : Node} {out : List Token} :
    Yields (load start ts) v out ↔
      ∃ module rest, ts = module :: rest ∧ module.kind = .string ∧
        ∃ args, Yields (loadArguments rest) args out ∧
          .load ⟨start, args.2.span.stop⟩ (.string module.span module.value) args.1 = v := by
  unfold load
  cases ts with
  | nil => simp
  | cons module rest =>
    simp only [List.cons.injEq, and_assoc, exists_and_left, exists_eq_left']
    split
    · next hmodule =>
      rw [and_iff_right hmodule]
      exact yields_map fun x mid h => yields_ok
    · next hmodule => simp [hmodule]

theorem yields_assignment {ts : List Token} {v : Node} {out : List Token} :
    Yields (assignment ts) v out ↔
      ∃ x mid, Yields (expression 0 ts) x mid ∧
        ((∃ sign behind, mid = sign :: behind ∧
          (sign.kind = .equals ∨ sign.kind = .plusEquals) ∧
          ∃ y, Yields (expression 0 behind) y out ∧
            .assign ⟨x.span.start, y.span.stop⟩ x sign.value y = v) ∨
        (∀ sign ∈ mid.head?, ¬ (sign.kind = .equals ∨ sign.kind = .plusEquals)) ∧
          x = v ∧ mid = out) := by
  unfold assignment
  refine yields_bind fun x mid h => ?_
  cases mid with
  | nil => simp
  | cons sign behind =>
    simp only [List.cons.injEq, and_assoc, exists_and_left, exists_eq_left', List.head?_cons,
      Option.mem_def, Option.some.injEq, forall_eq']
    split
    · next hsign =>
      simp only [hsign, not_true_eq_false, false_and, or_false, true_and]
      exact yields_map fun y mid' h' => yields_ok
    · next hsign => simp [hsign]

@[simp] theorem not_yields_statement_nil {v : Node} {out : List Token} :
    ¬ Yields (statement []) v out := by
  simp [statement, yields_assignment]

theorem yields_statement_cons {t : Token} {rest : List Token} {v : Node} {out : List Token} :
    Yields (statement (t :: rest)) v out ↔
      ¬ (t.kind = .identifier ∧ t.value ∈ reservedWords) ∧
        ((∃ next behind, rest = next :: behind ∧
          (t.kind = .identifier ∧ t.value = "load" ∧ next.kind = .lparen) ∧
          Yields (load t.span.start behind) v out) ∨
        (∀ next ∈ rest.head?,
          ¬ (t.kind = .identifier ∧ t.value = "load" ∧ next.kind = .lparen)) ∧
          Yields (assignment (t :: rest)) v out) := by
  unfold statement
  dsimp only
  split
  · next hreserved => simp [hreserved]
  · next hfree =>
    rw [and_iff_right hfree]
    cases rest with
    | nil => simp
    | cons next behind =>
      simp only [List.cons.injEq, and_assoc, exists_and_left, exists_eq_left', List.head?_cons,
        Option.mem_def, Option.some.injEq, forall_eq']
      split
      · next hload =>
        simp only [hload, and_self, not_true_eq_false, false_and, or_false, true_and]
        exact yields_handOn fun x mid h => yields_ok
      · next hload => simp only [← and_assoc] at hload ⊢; simp [hload]

/-! ### Files -/

theorem checkEnd_eq_ok_iff {ts : List Token} {u : Unit} :
    checkEnd ts = .ok u ↔ ∀ t ∈ ts.head?, endsStatement t := by
  cases ts with
  | nil => simp [checkEnd]
  | cons t rest =>
    unfold checkEnd
    split
    · next hend => simp [hend]
    · next hend => simp [hend, failAt]

theorem statements_cons_eq_ok_iff {t : Token} {rest : List Token}
    {r : List Node × Option Token} : statements (t :: rest) = .ok r ↔
      if t.kind = .newline ∨ t.kind = .semicolon then statements rest = .ok r
      else if t.kind = .endOfFile then ([], some t) = r
      else ∃ x mid, Yields (statement (t :: rest)) x mid ∧
        (∀ u ∈ mid.head?, endsStatement u) ∧
          ∃ more, statements mid = .ok more ∧ (x :: more.1, more.2) = r := by
  rw [statements]
  split
  · rfl
  · split
    · rw [Except.ok.injEq]
    · constructor
      · intro h
        cases hfirst : statement (t :: rest) with
        | error e => simp [hfirst, bind, Except.bind] at h
        | ok first =>
          cases hend : checkEnd first.rest with
          | error e => simp [hfirst, hend, bind, Except.bind] at h
          | ok u =>
            cases hmore : statements first.rest with
            | error e => simp [hfirst, hend, hmore, bind, Except.bind] at h
            | ok more =>
              simp only [hfirst, hend, hmore, bind, Except.bind, Except.ok.injEq] at h
              exact ⟨first.value, first.rest, ⟨first.shorter, rfl⟩, checkEnd_eq_ok_iff.mp hend,
                more, hmore, h⟩
      · rintro ⟨x, mid, ⟨hmid, hx⟩, hend, more, hmore, rfl⟩
        have hcheck : checkEnd mid = .ok () := checkEnd_eq_ok_iff.mpr hend
        simp [hx, hcheck, hmore, bind, Except.bind]

end StarlarkLint.Grammar
