import Mathlib
import StarlarkLint.Proofs.Grammar.Descent

/-!
# The descent makes progress and ends

The descent with a cursor and the readers of the grammar are held side by side.  Where some tokens
lie ahead of the cursor, a run of the descent ends: it yields what the reader yields from these
tokens and leaves the cursor in front of those that the reader leaves, or it is refused with the
same error.

The induction is on the depth.  It is enough for a reader as long as it exceeds sixteen for each
token ahead and the rank of the reader: a call on the same tokens goes to a reader of a lower rank,
and every other call, or round of a loop, comes behind a call that has moved the cursor ahead.

## Main definitions

* `Descent.Call.Advances` — the call moved the cursor ahead, as far as the grammar says.
* `Descent.Session.Ahead` — the tokens ahead of the cursor, where all calls so far advanced.
* `Descent.DeepEnough` — the depth is enough for a reader of a rank, in front of some tokens.
* `Descent.Follows` — a run of the descent ends like a reader.

## Main results

* `Descent.expression_follows`, `Descent.statement_follows` — values and statements.
* `Descent.file_ends_advancing` — whole files, from any tokens.
-/

namespace StarlarkLint.Descent

open Grammar (Yields failAt failBefore isNot isKeywordArgument)

section

variable {α β : Type} {ts us rest : List Token} {t : Token} {s s' : Session} {n m : Nat}

/-! ### Sessions -/

/-- The call has moved the cursor ahead and not past the end, as far as the reader of the grammar
gets from the same place. -/
structure Call.Advances (ts : List Token) (c : Call) : Prop where
  /-- The cursor has moved ahead. -/
  forward : c.found < c.left
  /-- It has not moved past the end. -/
  inside : c.left ≤ ts.length
  /-- The reader succeeds, and leaves what is ahead of the cursor now. -/
  reads : ∃ v, Yields (c.reader.read (ts.drop c.found)) v (ts.drop c.left)

/-- The tokens lie ahead of the cursor, and the calls so far have moved it ahead. -/
structure Session.Ahead (ts us : List Token) (s : Session) : Prop where
  /-- The cursor has not moved past the end. -/
  inside : s.position ≤ ts.length
  /-- What lies ahead. -/
  rest : ts.drop s.position = us
  /-- The calls so far. -/
  calls : ∀ c ∈ s.calls, c.Advances ts

theorem Session.ahead_start (ts : List Token) {p : Nat} (hp : p ≤ ts.length) :
    Session.Ahead ts (ts.drop p) { position := p } :=
  ⟨hp, rfl, by simp⟩

theorem Session.Ahead.getElem?_position (h : s.Ahead ts us) : ts[s.position]? = us.head? := by
  rw [← h.rest, List.head?_drop]

theorem Session.Ahead.getElem?_next (h : s.Ahead ts us) :
    ts[s.position + 1]? = us.tail.head? := by
  rw [← h.rest, List.tail_drop, List.head?_drop]

theorem Session.Ahead.step (h : s.Ahead ts us) : (s.step ts).Ahead ts us.tail := by
  unfold Session.step
  split
  · next hlt => exact ⟨hlt, by rw [← h.rest, List.tail_drop], h.calls⟩
  · next hend =>
    have hnil : us = [] := by rw [← h.rest, List.drop_eq_nil_of_le (Nat.le_of_not_lt hend)]
    subst hnil
    exact h

/-- What has become of the tokens ahead tells how far the cursor has moved. -/
theorem Session.Ahead.position_lt (h : s.Ahead ts us) (h' : s'.Ahead ts rest)
    (hlt : rest.length < us.length) : s.position < s'.position := by
  rw [← h.rest, ← h'.rest, List.length_drop, List.length_drop] at hlt
  omega

/-! ### Depth -/

/-- The depth is enough for a reader of the rank, in front of the tokens: readers are ranked as in
the measures by which the grammar descends. -/
def DeepEnough (depth rank : Nat) (us : List Token) : Prop := 16 * us.length + rank < depth

theorem not_deepEnough_zero {rank : Nat} : ¬ DeepEnough 0 rank us := Nat.not_lt_zero _

theorem DeepEnough.mono {depth rank rank' : Nat} (h : DeepEnough depth rank us)
    (hlen : rest.length ≤ us.length) (hrank : rank' ≤ rank) : DeepEnough depth rank' rest := by
  unfold DeepEnough at *
  omega

/-- A reader may call one of a lower rank on the same tokens. -/
theorem DeepEnough.call {depth rank rank' : Nat} (h : DeepEnough (depth + 1) rank us)
    (hrank : rank' < rank) : DeepEnough depth rank' us := by
  unfold DeepEnough at *
  omega

/-- A reader may call any other one on fewer tokens. -/
theorem DeepEnough.fewer {depth rank rank' : Nat} (h : DeepEnough (depth + 1) rank us)
    (hlen : rest.length < us.length) (hrank : rank' < 16) : DeepEnough depth rank' rest := by
  unfold DeepEnough at *
  omega

/-! ### Outcomes -/

theorem outcome_pure (a : α) (s : Session) : (pure a : Run α).outcome s = some (.ok a, s) := rfl

theorem outcome_advance (ts : List Token) (s : Session) :
    (advance ts).outcome s = some (.ok (), s.step ts) := rfl

theorem outcome_bind_ok {run : Run α} {a : α} (h : run.outcome s = some (.ok a, s'))
    (k : α → Run β) : (run >>= k).outcome s = (k a).outcome s' := by
  change (run.outcome s).bind _ = _
  rw [h]
  rfl

theorem outcome_bind_error {run : Run α} {e : ParseError}
    (h : run.outcome s = some (.error e, s')) (k : α → Run β) :
    (run >>= k).outcome s = some (.error e, s') := by
  change (run.outcome s).bind _ = _
  rw [h]
  rfl

/-- A run whose value is changed. -/
theorem outcome_bind_pure {run : Run α} {r : Except ParseError α}
    (h : run.outcome s = some (r, s')) (f : α → β) :
    (run >>= fun a => pure (f a)).outcome s = some (r.map f, s') := by
  cases r with
  | ok a => exact (outcome_bind_ok h _).trans (outcome_pure (f a) s')
  | error e => exact outcome_bind_error h _

/-- A run that succeeds is put on record. -/
theorem outcome_recorded {run : Run α} {a : α} (reader : Reader)
    (h : run.outcome s = some (.ok a, s')) :
    (recorded reader run).outcome s =
      some (.ok a, { s' with calls := ⟨reader, s.position, s'.position⟩ :: s'.calls }) := by
  have hget : (get : Run Session).outcome s = some (.ok s, s) := rfl
  exact (outcome_bind_ok hget _).trans (outcome_bind_ok h _)

/-- A run that is refused is not. -/
theorem outcome_recorded_error {run : Run α} {e : ParseError} (reader : Reader)
    (h : run.outcome s = some (.error e, s')) :
    (recorded reader run).outcome s = some (.error e, s') := by
  have hget : (get : Run Session).outcome s = some (.ok s, s) := rfl
  exact (outcome_bind_ok hget _).trans (outcome_bind_error h _)

theorem Session.Ahead.outcome_current (h : s.Ahead ts us) :
    (current ts).outcome s = some (.ok us.head?, s) := by
  rw [← h.getElem?_position]
  rfl

theorem Session.Ahead.outcome_next (h : s.Ahead ts us) :
    (next ts).outcome s = some (.ok us.tail.head?, s) := by
  rw [← h.getElem?_next]
  rfl

theorem Session.Ahead.outcome_currentIf (h : s.Ahead ts us) (p : Token → Bool) :
    (currentIf ts p).outcome s = some (.ok (us.head?.filter p), s) :=
  outcome_bind_ok h.outcome_current _

theorem Session.Ahead.outcome_currentBefore (h : s.Ahead ts us) (p : Token → Token → Bool) :
    (currentBefore ts p).outcome s =
      some (.ok (us.head?.filter fun t => us.tail.head?.any (p t)), s) :=
  (outcome_bind_ok h.outcome_next _).trans (h.outcome_currentIf _)

/-- One token behind the first is all that an operator depends on. -/
theorem binary?_head (t : Token) (rest : List Token) :
    Operator.binary? t rest.head?.toList = Operator.binary? t rest := by
  cases rest with
  | nil => rfl
  | cons u rest => simp [Operator.binary?, Operator.startsWithIn]

theorem Session.Ahead.outcome_operator (h : s.Ahead ts us) (level : Nat) :
    (operator ts level).outcome s =
      some (.ok ((us.head?.bind fun t => Operator.binary? t us.tail).filter
        (· ∈ Operator.atLevel level)), s) := by
  simp only [← binary?_head _ us.tail]
  exact (outcome_bind_ok h.outcome_next _).trans (outcome_bind_ok h.outcome_current _)

theorem Session.Ahead.outcome_advanceOver (h : s.Ahead ts (t :: rest)) (op : String) :
    ∃ s', (advanceOver ts op).outcome s = some (.ok (), s') ∧
      s'.Ahead ts (rest.drop (Operator.width op - 1)) := by
  unfold advanceOver Operator.width
  rw [outcome_bind_ok (outcome_advance ts s)]
  split
  · exact ⟨_, outcome_advance ts _, by simpa using h.step.step⟩
  · exact ⟨_, outcome_pure () _, h.step⟩

theorem Session.Ahead.outcome_strings {depth : Nat} (h : s.Ahead ts us)
    (hdepth : DeepEnough depth 0 us) :
    ∃ s', (strings ts depth).outcome s = some (.ok (us.takeWhile (·.kind = .string)), s') ∧
      s'.Ahead ts (us.drop (us.takeWhile (·.kind = .string)).length) := by
  induction depth generalizing us s with
  | zero => exact absurd hdepth not_deepEnough_zero
  | succ depth ih =>
    rw [strings, outcome_bind_ok (h.outcome_currentIf _)]
    cases us with
    | nil => exact ⟨s, outcome_pure [] s, h⟩
    | cons t rest =>
      rw [List.head?_cons]
      by_cases ht : t.kind = .string
      · obtain ⟨s', hmore, hs'⟩ := ih h.step (hdepth.fewer (Nat.lt_succ_self _) (by decide))
        have htake : (t :: rest).takeWhile (·.kind = .string) =
            t :: rest.takeWhile (·.kind = .string) := by simp [ht]
        rw [Option.filter_some_pos (by simpa using ht), htake]
        refine ⟨s', ?_, hs'⟩
        exact (outcome_bind_ok (outcome_advance ts s) _).trans (outcome_bind_ok hmore _)
      · have htake : (t :: rest).takeWhile (·.kind = .string) = [] := by simp [ht]
        rw [Option.filter_some_neg (by simpa using ht), htake]
        exact ⟨s, outcome_pure [] s, h⟩

/-! ### Two runs -/

/-- The run ends like the reader: it yields the same and leaves the cursor in front of the tokens
that the reader leaves, or it is refused with the same error; and all its calls have advanced. -/
inductive Follows (ts : List Token) (run : Run α) (s : Session) (r : Reading α n) : Prop
  /-- Both succeed. -/
  | yields {v : α} {rest : List Token} {s' : Session} (hr : Yields r v rest)
      (hrun : run.outcome s = some (.ok v, s')) (hs' : s'.Ahead ts rest)
  /-- Both fail. -/
  | fails {e : ParseError} {s' : Session} (hr : r = .error e)
      (hrun : run.outcome s = some (.error e, s')) (hcalls : ∀ c ∈ s'.calls, c.Advances ts)

theorem Session.Ahead.follows_pure (h : s.Ahead ts us) {v : α} {hus : us.length < n} :
    Follows ts (pure v : Run α) s (.ok ⟨v, us, hus⟩ : Reading α n) :=
  .yields ⟨hus, rfl⟩ (outcome_pure v s) h

theorem Session.Ahead.follows_refuse (h : s.Ahead ts us) {token : Option Token}
    {problem : ParseProblem} :
    Follows ts (refuse token problem : Run α) s (.error { problem, token } : Reading α n) :=
  .fails rfl rfl h.calls

/-- A step that always succeeds, in front of a run. -/
theorem Follows.after {run : Run α} {a : α} {k : α → Run β} {r : Reading β n}
    (hrun : run.outcome s = some (.ok a, s')) (hk : Follows ts (k a) s' r) :
    Follows ts (run >>= k) s r := by
  have hwhole := outcome_bind_ok hrun k
  cases hk with
  | yields hr hrun' hout => exact .yields hr (hwhole.trans hrun') hout
  | fails hr hrun' hcalls => exact .fails hr (hwhole.trans hrun') hcalls

/-- One run behind another. -/
theorem Follows.bind {run : Run α} {r : Reading α n} {k : α → Run β}
    {k' : Parsed α n → Reading β m} (h : Follows ts run s r)
    (hk : ∀ v rest hrest s', s'.Ahead ts rest → Follows ts (k v) s' (k' ⟨v, rest, hrest⟩)) :
    Follows ts (run >>= k) s (r >>= k') := by
  cases h with
  | @yields v rest s' hr hrun hs' =>
    obtain ⟨hrest, rfl⟩ := hr
    exact .after hrun (hk v rest hrest s' hs')
  | fails hr hrun hcalls =>
    subst hr
    exact .fails rfl (outcome_bind_error hrun k) hcalls

/-- The reader hands on what another one yields. -/
theorem Follows.handOn {run : Run α} {r : Reading α n} {k' : Parsed α n → Reading α m}
    (h : Follows ts run s r) (hk : ∀ v rest hrest, Yields (k' ⟨v, rest, hrest⟩) v rest) :
    Follows ts run s (r >>= k') := by
  cases h with
  | @yields v rest s' hr hrun hs' =>
    obtain ⟨hrest, rfl⟩ := hr
    exact .yields (hk v rest hrest) hrun hs'
  | fails hr hrun hcalls =>
    subst hr
    exact .fails rfl hrun hcalls

/-- A run that is refused for want of tokens is refused whatever should come behind it. -/
theorem Follows.unexpectedEnd {run : Run α} {k : α → Run β}
    (h : Follows ts run s (failBefore [] .unexpectedEnd : Reading α n)) :
    Follows ts (run >>= k) s (failBefore [] .unexpectedEnd : Reading β m) := by
  cases h with
  | yields hr => exact absurd hr Grammar.not_yields_failBefore
  | fails hr hrun hcalls =>
    cases hr
    exact .fails rfl (outcome_bind_error hrun k) hcalls

/-- A condition that is the same for both. -/
theorem Follows.ite {p : Prop} [Decidable p] {run run' : Run α} {r r' : Reading α n}
    (hpos : p → Follows ts run s r) (hneg : ¬ p → Follows ts run' s r') :
    Follows ts (if p then run else run') s (if p then r else r') := by
  by_cases h : p
  · rw [if_pos h, if_pos h]
    exact hpos h
  · rw [if_neg h, if_neg h]
    exact hneg h

/-- The record of a run that has gone as far as the reader of the call. -/
theorem Follows.recorded (reader : Reader) {run : Run Node} (h : s.Ahead ts us)
    (hrun : Follows ts run s (reader.read us)) :
    Follows ts (recorded reader run) s (reader.read us) := by
  cases hrun with
  | @yields v rest s' hr hrun hs' =>
    have hcall : Call.Advances ts ⟨reader, s.position, s'.position⟩ := by
      refine ⟨h.position_lt hs' hr.shorter, hs'.inside, v, ?_⟩
      obtain ⟨-, rfl, -⟩ := h
      obtain ⟨-, rfl, -⟩ := hs'
      exact hr
    exact .yields hr (outcome_recorded reader hrun)
      ⟨hs'.inside, hs'.rest, List.forall_mem_cons.mpr ⟨hcall, hs'.calls⟩⟩
  | fails hr hrun hcalls => exact .fails hr (outcome_recorded_error reader hrun) hcalls

/-- Where a reader gets to from the tokens ahead is a position behind the cursor. -/
theorem Follows.exists_position {run : Run α} {r : Reading α us.length} {v : α}
    (h : s.Ahead ts us) (hrun : Follows ts run s r) (hr : Yields r v rest) :
    ∃ q, s.position < q ∧ q ≤ ts.length ∧ rest = ts.drop q := by
  cases hrun with
  | @yields _ mid s' hr' hrun hs' =>
    obtain ⟨rfl, rfl⟩ := hr.unique hr'
    exact ⟨s'.position, h.position_lt hs' hr.shorter, hs'.inside, hs'.rest.symm⟩
  | fails hr' =>
    rw [hr'] at hr
    exact absurd hr Grammar.not_yields_error

/-! ### Looking at the tokens ahead -/

/-- A test that the first token fails, or that has no token to look at. -/
theorem Session.Ahead.follows_currentIf_none (h : s.Ahead ts us) {p : Token → Bool}
    {k : Option Token → Run α} {r : Reading α n} (hp : ∀ t ∈ us.head?, ¬ p t)
    (hk : Follows ts (k none) s r) : Follows ts (currentIf ts p >>= k) s r := by
  refine .after (h.outcome_currentIf p) ?_
  rwa [Option.filter_eq_none_iff.mpr hp]

/-- A test of the first token that the reader makes too. -/
theorem Session.Ahead.follows_currentIf (h : s.Ahead ts (t :: rest)) {p : Token → Bool} {q : Prop}
    [Decidable q] {k : Option Token → Run α} {r r' : Reading α n} (hp : p t ↔ q)
    (hpos : q → Follows ts (k (some t)) s r) (hneg : ¬ q → Follows ts (k none) s r') :
    Follows ts (currentIf ts p >>= k) s (if q then r else r') := by
  split
  · next hq =>
    refine .after (h.outcome_currentIf p) ?_
    rw [List.head?_cons, Option.filter_some_pos (hp.mpr hq)]
    exact hpos hq
  · next hq =>
    have hp' : ∀ u ∈ (t :: rest).head?, ¬ p u := by
      rintro _ ⟨⟩
      exact mt hp.mp hq
    exact h.follows_currentIf_none hp' (hneg hq)

/-- A test of two tokens that has one at most to look at. -/
theorem Session.Ahead.follows_currentBefore_none (h : s.Ahead ts us) (hus : us.tail = [])
    {p : Token → Token → Bool} {k : Option Token → Run α} {r : Reading α n}
    (hk : Follows ts (k none) s r) : Follows ts (currentBefore ts p >>= k) s r := by
  refine .after (h.outcome_currentBefore p) ?_
  rwa [hus, Option.filter_eq_none_iff.mpr (by simp)]

/-- A test of the first two tokens that the reader makes too. -/
theorem Session.Ahead.follows_currentBefore {u : Token} (h : s.Ahead ts (t :: u :: rest))
    {p : Token → Token → Bool} {q : Prop} [Decidable q] {k : Option Token → Run α}
    {r r' : Reading α n} (hp : p t u ↔ q) (hpos : q → Follows ts (k (some t)) s r)
    (hneg : ¬ q → Follows ts (k none) s r') :
    Follows ts (currentBefore ts p >>= k) s (if q then r else r') := by
  refine .after (h.outcome_currentBefore p) ?_
  dsimp only [List.head?_cons, List.tail_cons, Option.any_some]
  split
  · next hq =>
    rw [Option.filter_some_pos (by exact hp.mpr hq)]
    exact hpos hq
  · next hq =>
    rw [Option.filter_some_neg (by simpa [← hp] using hq)]
    exact hneg hq

theorem Session.Ahead.follows_expect_nil (h : s.Ahead ts []) {kind : TokenKind}
    {problem : ParseProblem} {k : Token → Run α} :
    Follows ts (expect ts kind problem >>= k) s (failBefore [] problem : Reading α n) := by
  have hrun : (expect ts kind problem).outcome s = some (.error { problem, token := none }, s) :=
    outcome_bind_ok h.outcome_current _
  exact .fails rfl (outcome_bind_error hrun k) h.calls

theorem Session.Ahead.follows_expect_of_kind (h : s.Ahead ts (t :: rest)) {kind : TokenKind}
    {problem : ParseProblem} {k : Token → Run α} {r : Reading α n} (ht : t.kind = kind)
    (hk : Follows ts (k t) (s.step ts) r) : Follows ts (expect ts kind problem >>= k) s r := by
  have hrun : (expect ts kind problem).outcome s = some (.ok t, s.step ts) := by
    refine (outcome_bind_ok h.outcome_current _).trans ?_
    dsimp only [List.head?_cons]
    rw [if_pos ht]
    exact outcome_bind_ok (outcome_advance ts s) _
  exact .after hrun hk

theorem Session.Ahead.follows_expect_of_ne (h : s.Ahead ts (t :: rest)) {kind : TokenKind}
    {problem : ParseProblem} {k : Token → Run α} (ht : t.kind ≠ kind) :
    Follows ts (expect ts kind problem >>= k) s (failAt t problem : Reading α n) := by
  have hrun : (expect ts kind problem).outcome s =
      some (.error { problem, token := some t }, s) := by
    refine (outcome_bind_ok h.outcome_current _).trans ?_
    dsimp only [List.head?_cons]
    rw [if_neg ht]
    rfl
  exact .fails rfl (outcome_bind_error hrun k) h.calls

theorem Session.Ahead.follows_expect (h : s.Ahead ts (t :: rest)) {kind : TokenKind}
    {problem : ParseProblem} {k : Token → Run α} {r : Reading α n}
    (hk : Follows ts (k t) (s.step ts) r) :
    Follows ts (expect ts kind problem >>= k) s
      (if t.kind = kind then r else failAt t problem) := by
  split
  · next ht => exact h.follows_expect_of_kind ht hk
  · next ht => exact h.follows_expect_of_ne ht

/-! ### Values

The cases are those of the readers of the grammar, and the lemmas call each other where the readers
do.  The depth, on which they recur, is enough for each of these calls. -/

mutual

theorem expression_follows (depth level : Nat) (us : List Token) {s : Session} (h : s.Ahead ts us)
    (hdepth : DeepEnough depth ((6 - level) + 3) us) :
    Follows ts (expression ts depth level) s (Grammar.expression level us) := by
  match depth with
  | 0 => exact absurd hdepth not_deepEnough_zero
  | depth + 1 =>
    refine .recorded (.expression level) h ?_
    change Follows ts _ s (Grammar.expression level us)
    match us with
    | [] =>
      -- without tokens, the descent goes on through the levels down to a primary
      rw [Grammar.expression]
      refine h.follows_currentIf_none (by simp) ?_
      dsimp only
      split
      · next hlt =>
        have hlevel : level < 6 := hlt
        have hleft := expression_follows depth (level + 1) [] h (hdepth.call (by omega))
        rw [Grammar.expression] at hleft
        exact hleft.unexpectedEnd
      · have hunary := unary_follows depth [] h (hdepth.call (by omega))
        rwa [Grammar.unary] at hunary
    | t :: rest =>
      rw [Grammar.expression]
      refine h.follows_currentIf Iff.rfl (fun _ => ?_) fun _ => ?_
      · refine .after (outcome_advance ts s) ?_
        have hoperand := expression_follows depth level rest h.step
          (hdepth.fewer (Nat.lt_succ_self _) (by omega))
        exact hoperand.bind fun _ _ _ _ hs' => hs'.follows_pure
      · dsimp only
        by_cases hlt : level < Operator.levelCount
        · have hlevel : level < 6 := hlt
          rw [if_pos hlt, dif_pos hlt]
          have htighter := expression_follows depth (level + 1) (t :: rest) h
            (hdepth.call (by omega))
          refine htighter.bind fun left mid hmid s' hs' => ?_
          have hwhole := operation_follows depth level left mid hs' (hdepth.fewer hmid (by decide))
          exact hwhole.handOn fun _ _ _ => ⟨_, rfl⟩
        · rw [if_neg hlt, dif_neg hlt]
          exact unary_follows depth (t :: rest) h (hdepth.call (by omega))
termination_by depth

theorem operation_follows (depth level : Nat) (left : Node) (us : List Token) {s : Session}
    (h : s.Ahead ts us) (hdepth : DeepEnough depth 0 us) :
    Follows ts (operation ts depth level left) s (Grammar.operation level left us) := by
  match depth with
  | 0 => exact absurd hdepth not_deepEnough_zero
  | depth + 1 =>
    refine .after (h.outcome_operator level) ?_
    match us with
    | [] =>
      rw [Grammar.operation]
      exact h.follows_pure
    | t :: rest =>
      rw [Grammar.operation.eq_def]
      dsimp only [List.head?_cons, List.tail_cons, Option.bind_some]
      cases hop : Operator.binary? t rest with
      | none => exact h.follows_pure
      | some op =>
        dsimp only
        by_cases hmem : op ∈ Operator.atLevel level
        · rw [Option.filter_some_pos (by simpa using hmem), if_pos hmem]
          obtain ⟨s', hover, hs'⟩ := h.outcome_advanceOver op
          refine .after hover ?_
          have hdrop : (rest.drop (Operator.width op - 1)).length < rest.length + 1 := by
            rw [List.length_drop]
            omega
          have hright := expression_follows depth (level + 1) _ hs' (hdepth.fewer hdrop (by omega))
          refine hright.bind fun right mid hmid s'' hs'' => ?_
          have hlen : mid.length < rest.length + 1 := Nat.lt_trans hmid hdrop
          have hwhole := operation_follows depth level
            (.binary ⟨left.span.start, right.span.stop⟩ op left right) mid hs''
            (hdepth.fewer hlen (by decide))
          exact hwhole.handOn fun _ _ _ => ⟨_, rfl⟩
        · rw [Option.filter_some_neg (by simpa using hmem), if_neg hmem]
          exact h.follows_pure
termination_by depth

theorem unary_follows (depth : Nat) (us : List Token) {s : Session} (h : s.Ahead ts us)
    (hdepth : DeepEnough depth 2 us) :
    Follows ts (unary ts depth) s (Grammar.unary us) := by
  match depth with
  | 0 => exact absurd hdepth not_deepEnough_zero
  | depth + 1 =>
    match us with
    | [] =>
      have hprimary := primary_follows depth [] h (hdepth.call (by decide))
      rw [Grammar.primary] at hprimary
      rw [Grammar.unary]
      exact h.follows_currentIf_none (by simp) hprimary.unexpectedEnd
    | t :: rest =>
      rw [Grammar.unary]
      refine h.follows_currentIf decide_eq_true_iff (fun _ => ?_) fun _ => ?_
      · refine .after (outcome_advance ts s) ?_
        have hoperand := unary_follows depth rest h.step
          (hdepth.fewer (Nat.lt_succ_self _) (by decide))
        exact hoperand.bind fun _ _ _ _ hs' => hs'.follows_pure
      · have hprimary := primary_follows depth (t :: rest) h (hdepth.call (by decide))
        refine hprimary.bind fun base mid hmid s' hs' => ?_
        have hwhole := postfixes_follows depth base mid hs' (hdepth.fewer hmid (by decide))
        exact hwhole.handOn fun _ _ _ => ⟨_, rfl⟩
termination_by depth

theorem postfixes_follows (depth : Nat) (base : Node) (us : List Token) {s : Session}
    (h : s.Ahead ts us) (hdepth : DeepEnough depth 0 us) :
    Follows ts (postfixes ts depth base) s (Grammar.postfixes base us) := by
  match depth with
  | 0 => exact absurd hdepth not_deepEnough_zero
  | depth + 1 =>
    refine .after h.outcome_current ?_
    match us with
    | [] =>
      rw [Grammar.postfixes]
      exact h.follows_pure
    | t :: rest =>
      rw [Grammar.postfixes.eq_def]
      dsimp only [List.head?_cons]
      refine .ite (fun _ => ?_) fun _ => .ite (fun _ => ?_) fun _ => h.follows_pure
      · refine .after (outcome_advance ts s) ?_
        match rest with
        | [] => exact h.step.follows_expect_nil
        | name :: behind =>
          refine h.step.follows_expect ?_
          have hlen : behind.length < behind.length + 1 + 1 := by omega
          have hwhole := postfixes_follows depth (.member ⟨base.span.start, name.span.stop⟩ base
            name.value) behind h.step.step (hdepth.fewer hlen (by decide))
          exact hwhole.handOn fun _ _ _ => ⟨_, rfl⟩
      · refine .after (outcome_advance ts s) ?_
        have hargs := sequence_follows depth .arguments rest h.step
          (hdepth.fewer (Nat.lt_succ_self _) (by decide))
        refine hargs.bind fun args mid hmid s' hs' => ?_
        have hlen : mid.length < rest.length + 1 := Nat.lt_succ_of_lt hmid
        have hwhole := postfixes_follows depth
          (.call ⟨base.span.start, args.2.span.stop⟩ base args.1) mid hs'
          (hdepth.fewer hlen (by decide))
        exact hwhole.handOn fun _ _ _ => ⟨_, rfl⟩
termination_by depth

theorem primary_follows (depth : Nat) (us : List Token) {s : Session} (h : s.Ahead ts us)
    (hdepth : DeepEnough depth 1 us) :
    Follows ts (primary ts depth) s (Grammar.primary us) := by
  match depth with
  | 0 => exact absurd hdepth not_deepEnough_zero
  | depth + 1 =>
    refine .after h.outcome_current ?_
    match us with
    | [] =>
      rw [Grammar.primary]
      exact h.follows_refuse
    | t :: rest =>
      rw [Grammar.primary.eq_def]
      dsimp only [List.head?_cons]
      have hlen : rest.length < rest.length + 1 := Nat.lt_succ_self _
      cases t.kind with
      | identifier =>
        refine .ite (fun _ => h.follows_refuse) fun _ => ?_
        exact .after (outcome_advance ts s) h.step.follows_pure
      | string =>
        refine .after (outcome_advance ts s) ?_
        obtain ⟨s', hmore, hs'⟩ := h.step.outcome_strings (hdepth.fewer hlen (by decide))
        exact .after hmore hs'.follows_pure
      | number => exact .after (outcome_advance ts s) h.step.follows_pure
      | lbracket =>
        refine .after (outcome_advance ts s) ?_
        have hitems := sequence_follows depth .items rest h.step (hdepth.fewer hlen (by decide))
        exact hitems.bind fun _ _ _ _ hs' => hs'.follows_pure
      | lbrace =>
        refine .after (outcome_advance ts s) ?_
        have hentries := sequence_follows depth .entries rest h.step (hdepth.fewer hlen (by decide))
        exact hentries.bind fun _ _ _ _ hs' => hs'.follows_pure
      | lparen =>
        refine .after (outcome_advance ts s) ?_
        have hinner := expression_follows depth 0 rest h.step (hdepth.fewer hlen (by decide))
        refine hinner.bind fun inner mid hmid s' hs' => ?_
        match mid with
        | [] => exact hs'.follows_expect_nil
        | close :: behind => exact hs'.follows_expect hs'.step.follows_pure
      | _ => exact h.follows_refuse
termination_by depth

theorem argument_follows (depth : Nat) (us : List Token) {s : Session} (h : s.Ahead ts us)
    (hdepth : DeepEnough depth 10 us) :
    Follows ts (argument ts depth) s (Grammar.argument us) := by
  match depth with
  | 0 => exact absurd hdepth not_deepEnough_zero
  | depth + 1 =>
    refine .recorded .argument h ?_
    change Follows ts _ s (Grammar.argument us)
    match us with
    | [] =>
      rw [Grammar.argument]
      have hvalue := expression_follows depth 0 [] h (hdepth.call (by decide))
      exact h.follows_currentIf_none (by simp) (h.follows_currentBefore_none rfl hvalue)
    | t :: rest =>
      rw [Grammar.argument.eq_def]
      refine h.follows_currentIf decide_eq_true_iff (fun _ => ?_) fun _ => ?_
      · refine .after (outcome_advance ts s) ?_
        have hoperand := expression_follows depth 0 rest h.step
          (hdepth.fewer (Nat.lt_succ_self _) (by decide))
        exact hoperand.bind fun _ _ _ _ hs' => hs'.follows_pure
      · have hvalue := expression_follows depth 0 (t :: rest) h (hdepth.call (by decide))
        match rest with
        | [] => exact h.follows_currentBefore_none rfl hvalue
        | sign :: behind =>
          refine h.follows_currentBefore Iff.rfl (fun _ => ?_) fun _ => hvalue
          refine .after (outcome_advance ts s) (.after (outcome_advance ts _) ?_)
          have hlen : behind.length < behind.length + 1 + 1 := by omega
          have hnamed := expression_follows depth 0 behind h.step.step
            (hdepth.fewer hlen (by decide))
          exact hnamed.bind fun _ _ _ _ hs' => hs'.follows_pure
termination_by depth

theorem entry_follows (depth : Nat) (us : List Token) {s : Session} (h : s.Ahead ts us)
    (hdepth : DeepEnough depth 10 us) :
    Follows ts (entry ts depth) s (Grammar.entry us) := by
  match depth with
  | 0 => exact absurd hdepth not_deepEnough_zero
  | depth + 1 =>
    refine .recorded .entry h ?_
    change Follows ts _ s (Grammar.entry us)
    rw [Grammar.entry]
    have hkey := expression_follows depth 0 us h (hdepth.call (by decide))
    refine hkey.bind fun key mid hmid s' hs' => ?_
    match mid with
    | [] => exact hs'.follows_expect_nil
    | colon :: rest =>
      have hlen : rest.length + 1 < us.length := hmid
      refine hs'.follows_expect ?_
      have hvalue := expression_follows depth 0 rest hs'.step
        (hdepth.fewer (Nat.lt_of_succ_lt hlen) (by decide))
      exact hvalue.bind fun _ _ _ _ hs'' => hs''.follows_pure
termination_by depth

theorem item_follows (depth : Nat) (kind : Grammar.Sequence) (us : List Token) {s : Session}
    (h : s.Ahead ts us) (hdepth : DeepEnough depth 11 us) :
    Follows ts (item ts depth kind) s (Grammar.item kind us) := by
  match depth with
  | 0 => exact absurd hdepth not_deepEnough_zero
  | depth + 1 =>
    rw [Grammar.item.eq_def]
    match kind with
    | .arguments => exact argument_follows depth us h (hdepth.call (by decide))
    | .items => exact expression_follows depth 0 us h (hdepth.call (by decide))
    | .entries => exact entry_follows depth us h (hdepth.call (by decide))
termination_by depth

theorem sequence_follows (depth : Nat) (kind : Grammar.Sequence) (us : List Token) {s : Session}
    (h : s.Ahead ts us) (hdepth : DeepEnough depth 12 us) :
    Follows ts (sequence ts depth kind) s (Grammar.sequence kind us) := by
  match depth with
  | 0 => exact absurd hdepth not_deepEnough_zero
  | depth + 1 =>
    refine .after h.outcome_current ?_
    match us with
    | [] =>
      rw [Grammar.sequence]
      exact h.follows_refuse
    | t :: rest =>
      rw [Grammar.sequence.eq_def]
      dsimp only [List.head?_cons]
      refine .ite (fun _ => ?_) fun _ => .ite (fun _ => h.follows_refuse) fun _ => ?_
      · exact .after (outcome_advance ts s) h.step.follows_pure
      · have hfirst := item_follows depth kind (t :: rest) h (hdepth.call (by decide))
        refine hfirst.bind fun first mid hmid s' hs' => ?_
        refine .after hs'.outcome_current ?_
        match mid with
        | [] => exact hs'.follows_refuse
        | u :: behind =>
          dsimp only [List.head?_cons]
          have hlen : behind.length + 1 < rest.length + 1 := hmid
          refine .ite (fun _ => ?_) fun _ => .ite (fun _ => ?_) fun _ => hs'.follows_refuse
          · refine .after (outcome_advance ts s') ?_
            have hmore := sequence_follows depth kind behind hs'.step
              (hdepth.fewer (Nat.lt_of_succ_lt hlen) (by decide))
            exact hmore.bind fun _ _ _ _ hs'' => hs''.follows_pure
          · exact .after (outcome_advance ts s') hs'.step.follows_pure
termination_by depth

end

/-! ### Statements -/

theorem loadArguments_follows {depth : Nat} (h : s.Ahead ts us) (hdepth : DeepEnough depth 0 us) :
    Follows ts (loadArguments ts depth) s (Grammar.loadArguments us) := by
  induction depth generalizing us s with
  | zero => exact absurd hdepth not_deepEnough_zero
  | succ depth ih =>
    cases us with
    | nil =>
      rw [Grammar.loadArguments]
      exact h.follows_currentIf_none (by simp) h.follows_expect_nil
    | cons t rest =>
      rw [Grammar.loadArguments.eq_def]
      refine .after (h.outcome_currentIf _) ?_
      dsimp only [List.head?_cons]
      by_cases hcomma : t.kind = .comma
      · have hopen : t.kind ≠ .rparen := by simp [hcomma]
        rw [Option.filter_some_pos (by simpa using hcomma), if_neg hopen, if_pos hcomma]
        refine .after (outcome_advance ts s) ?_
        have hargument := argument_follows depth rest h.step
          (hdepth.fewer (Nat.lt_succ_self _) (by decide))
        cases rest with
        | nil =>
          rw [Grammar.argument, Grammar.expression] at hargument
          exact h.step.follows_currentIf_none (by simp) hargument.unexpectedEnd
        | cons close behind =>
          refine h.step.follows_currentIf decide_eq_true_iff (fun hclose => ?_) fun _ => ?_
          · exact h.step.follows_expect_of_kind hclose h.step.step.follows_pure
          · refine hargument.bind fun first mid hmid s' hs' => ?_
            have hmore := ih hs' (hdepth.fewer (Nat.lt_succ_of_lt hmid) (by decide))
            exact hmore.bind fun _ _ _ _ hs'' => hs''.follows_pure
      · rw [Option.filter_some_neg (by simpa using hcomma), if_neg hcomma]
        exact h.follows_expect h.step.follows_pure

theorem load_follows {depth : Nat} (start : Position) (h : s.Ahead ts us)
    (hdepth : DeepEnough depth 0 us) :
    Follows ts (load ts depth start) s (Grammar.load start us) := by
  unfold load Grammar.load
  match us with
  | [] => exact h.follows_expect_nil
  | module :: rest =>
    refine h.follows_expect ?_
    have hargs := loadArguments_follows h.step
      (hdepth.mono (Nat.le_succ _) (Nat.le_refl 0))
    exact hargs.bind fun _ _ _ _ hs' => hs'.follows_pure

theorem assignment_follows {depth : Nat} (h : s.Ahead ts us) (hdepth : DeepEnough depth 9 us) :
    Follows ts (assignment ts depth) s (Grammar.assignment us) := by
  unfold assignment Grammar.assignment
  refine (expression_follows depth 0 us h hdepth).bind fun target mid hmid s' hs' => ?_
  match mid with
  | [] => exact hs'.follows_currentIf_none (by simp) hs'.follows_pure
  | sign :: rest =>
    refine hs'.follows_currentIf decide_eq_true_iff (fun _ => ?_) fun _ => hs'.follows_pure
    refine .after (outcome_advance ts s') ?_
    have hlen : rest.length ≤ us.length := Nat.le_of_lt (Nat.lt_of_succ_lt hmid)
    have hvalue := expression_follows depth 0 rest hs'.step (hdepth.mono hlen (Nat.le_refl 9))
    exact hvalue.bind fun _ _ _ _ hs'' => hs''.follows_pure

theorem statement_follows {depth : Nat} (h : s.Ahead ts us) (hdepth : DeepEnough depth 9 us) :
    Follows ts (statement ts depth) s (Grammar.statement us) := by
  refine .recorded .statement h ?_
  change Follows ts _ s (Grammar.statement us)
  unfold Grammar.statement
  have hassignment := assignment_follows h hdepth
  match us with
  | [] =>
    exact h.follows_currentIf_none (by simp) (h.follows_currentBefore_none rfl hassignment)
  | t :: rest =>
    refine h.follows_currentIf decide_eq_true_iff (fun _ => h.follows_refuse) fun _ => ?_
    match rest with
    | [] => exact h.follows_currentBefore_none rfl hassignment
    | following :: behind =>
      refine h.follows_currentBefore decide_eq_true_iff (fun _ => ?_) fun _ => hassignment
      refine .after (outcome_advance ts s) (.after (outcome_advance ts _) ?_)
      have hlen : behind.length ≤ behind.length + 1 + 1 := by omega
      have hload := load_follows t.span.start h.step.step (hdepth.mono hlen (Nat.zero_le 9))
      exact hload.handOn fun _ _ _ => ⟨_, rfl⟩

theorem Reader.run_follows (reader : Reader) {depth : Nat} (h : s.Ahead ts us)
    (hdepth : DeepEnough depth 10 us) :
    Follows ts (reader.run ts depth) s (reader.read us) := by
  cases reader with
  | statement => exact statement_follows h (hdepth.mono (Nat.le_refl _) (by decide))
  | expression level =>
    exact expression_follows depth level us h (hdepth.mono (Nat.le_refl _) (by omega))
  | argument => exact argument_follows depth us h hdepth
  | entry => exact entry_follows depth us h hdepth

/-! ### Files -/

/-- Whether a statement ends is told by the token behind it. -/
theorem checkEnd_eq_filter (us : List Token) :
    Grammar.checkEnd us = match us.head?.filter (!Grammar.endsStatement ·) with
      | some t => failAt t (.unexpectedAfterStatement t.value)
      | none => .ok () := by
  cases us with
  | nil => rfl
  | cons t rest =>
    rw [Grammar.checkEnd, List.head?_cons]
    by_cases ht : Grammar.endsStatement t
    · rw [if_pos ht, Option.filter_some_neg (by simpa using ht)]
    · rw [if_neg ht, Option.filter_some_pos (by simpa using ht)]

/-- The statements of a file, by the statements one by one. -/
theorem statements_follow {depth : Nat} (h : s.Ahead ts us) (hdepth : DeepEnough depth 10 us) :
    ∃ s', (statements ts depth).outcome s = some (Grammar.statements us, s') ∧
      ∀ c ∈ s'.calls, c.Advances ts := by
  induction depth generalizing us s with
  | zero => exact absurd hdepth not_deepEnough_zero
  | succ depth ih =>
    rw [statements, outcome_bind_ok h.outcome_current]
    cases us with
    | nil =>
      rw [Grammar.statements]
      exact ⟨s, outcome_pure _ s, h.calls⟩
    | cons t rest =>
      rw [Grammar.statements]
      dsimp only [List.head?_cons]
      split
      · rw [outcome_bind_ok (outcome_advance ts s)]
        exact ih h.step (hdepth.fewer (Nat.lt_succ_self _) (by decide))
      · split
        · exact ⟨s, outcome_pure _ s, h.calls⟩
        · cases statement_follows h (hdepth.call (by decide)) with
          | @fails e s' hr hrun hcalls =>
            rw [hr, outcome_bind_error hrun]
            exact ⟨s', rfl, hcalls⟩
          | @yields v mid s' hr hrun hs' =>
            obtain ⟨hmid, hr⟩ := hr
            obtain ⟨s'', hmore, hcalls⟩ := ih hs' (hdepth.fewer hmid (by decide))
            rw [hr, outcome_bind_ok hrun, outcome_bind_ok (hs'.outcome_currentIf _)]
            simp only [bind, Except.bind, checkEnd_eq_filter]
            cases mid.head?.filter (!Grammar.endsStatement ·) with
            | some u => exact ⟨s', rfl, hs'.calls⟩
            | none =>
              refine ⟨s'', (outcome_bind_pure hmore _).trans ?_, hcalls⟩
              cases Grammar.statements mid <;> rfl

/-- **Reading ends, and every call that succeeds moves ahead.**  From any tokens, with or without a
mark for the end of the file, the descent ends, with calls nested no deeper than sixteen for each
token and eleven more, and with the file that the tokens spell or the error for which they are
refused.  Every call of a reader of statements, of values of any level, of arguments and of entries
that succeeded on the way has left the cursor behind the place where it found it and not past the
end, and read there what the grammar reads.  So it is with the readers of the grammar, called from
any position. -/
theorem file_ends_advancing (ts : List Token) (path : String) (dialect : Dialect) :
    (∀ depth, 16 * ts.length + 11 ≤ depth → ∃ s : Session,
      (file ts depth path dialect).outcome {} = some (SourceFile.ofTokens path dialect ts, s) ∧
      ∀ c ∈ s.calls, c.found < c.left ∧ c.left ≤ ts.length ∧
        ∃ v, Yields (c.reader.read (ts.drop c.found)) v (ts.drop c.left)) ∧
    ∀ (reader : Reader) (p : Nat) (v : Node) (rest : List Token),
      Yields (reader.read (ts.drop p)) v rest → ∃ q, p < q ∧ q ≤ ts.length ∧ rest = ts.drop q := by
  constructor
  · intro depth hdepth
    have hstart : Session.Ahead ts ts {} := Session.ahead_start ts (Nat.zero_le _)
    obtain ⟨s, hrun, hcalls⟩ := statements_follow hstart hdepth
    refine ⟨s, (outcome_bind_pure hrun _).trans ?_, fun c hc => ?_⟩
    · rw [SourceFile.ofTokens]
      cases Grammar.statements ts <;> rfl
    · exact ⟨(hcalls c hc).forward, (hcalls c hc).inside, (hcalls c hc).reads⟩
  · intro reader p v rest hread
    have hp : p ≤ ts.length := by
      have hlt := hread.shorter
      rw [List.length_drop] at hlt
      omega
    have hstart := Session.ahead_start ts hp
    have hrun := reader.run_follows hstart (Nat.lt_succ_self _)
    exact hrun.exists_position hstart hread

end

/-- The tokens of a call that is not closed, without a mark for the end of the file. -/
def unclosedCall : List Token :=
  [⟨.identifier, "f", ⟨⟨1, 1⟩, ⟨1, 2⟩⟩⟩, ⟨.lparen, "(", ⟨⟨1, 2⟩, ⟨1, 3⟩⟩⟩,
   ⟨.identifier, "a", ⟨⟨1, 3⟩, ⟨1, 4⟩⟩⟩, ⟨.comma, ",", ⟨⟨1, 4⟩, ⟨1, 5⟩⟩⟩]

/-- The calls that succeed there: the argument, through all levels. -/
def unclosedCallRecord : List Call :=
  [⟨.argument, 2, 3⟩, ⟨.expression 0, 2, 3⟩, ⟨.expression 1, 2, 3⟩, ⟨.expression 2, 2, 3⟩,
   ⟨.expression 3, 2, 3⟩, ⟨.expression 4, 2, 3⟩, ⟨.expression 5, 2, 3⟩, ⟨.expression 6, 2, 3⟩]

set_option maxRecDepth 4000 in
/-- The call is refused for want of its closing parenthesis, behind an argument that was read. -/
theorem file_ends_advancing_unclosedCall :
    (16 * unclosedCall.length + 11 ≤ 75 ∧
      (file unclosedCall 75 "BUILD" .build).outcome {} =
        some (.error { problem := .sequenceUnclosed .rparen },
          { position := 4, calls := unclosedCallRecord }) ∧
      ∀ c ∈ unclosedCallRecord, c.found < c.left ∧ c.left ≤ unclosedCall.length ∧
        ∃ v, Yields (c.reader.read (unclosedCall.drop c.found)) v (unclosedCall.drop c.left)) ∧
    Yields (Reader.argument.read (unclosedCall.drop 2)) (.ident ⟨⟨1, 3⟩, ⟨1, 4⟩⟩ "a")
      (unclosedCall.drop 3) ∧
    ∃ q, 2 < q ∧ q ≤ unclosedCall.length ∧ unclosedCall.drop 3 = unclosedCall.drop q := by
  have hrun : (file unclosedCall 75 "BUILD" .build).outcome {} =
      some (.error { problem := .sequenceUnclosed .rparen },
        { position := 4, calls := unclosedCallRecord }) := by cbv
  have hdepth : 16 * unclosedCall.length + 11 ≤ 75 := by decide
  obtain ⟨hends, hread⟩ := file_ends_advancing unclosedCall "BUILD" .build
  obtain ⟨s, hs, hcalls⟩ := hends 75 hdepth
  have hargument : Yields (Reader.argument.read (unclosedCall.drop 2))
      (.ident ⟨⟨1, 3⟩, ⟨1, 4⟩⟩ "a") (unclosedCall.drop 3) := ⟨by decide, by cbv⟩
  rw [hrun] at hs
  obtain ⟨-, rfl⟩ := Prod.mk.inj (Option.some.inj hs)
  exact ⟨⟨hdepth, hrun, hcalls⟩, hargument, hread .argument 2 _ _ hargument⟩

end StarlarkLint.Descent
