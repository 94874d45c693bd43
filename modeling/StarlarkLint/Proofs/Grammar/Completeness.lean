import StarlarkLint.Proofs.Grammar.Derivation
import StarlarkLint.Proofs.Grammar.Reading

/-!
# What is derived is read

Tokens that derive a node are read as that node, whatever follows them that does not go on with it.
The grammar recurses to the left where the readers loop: a value that has been derived is therefore
handed to the loop of its strength, with what follows it, and whatever the loop yields from there is
what the reader yields from the start.

## Main definitions

* `Grammar.levelOf` — the level of the reader that reads the values of a strength.
* `Grammar.Stops` — a value of the given strength does not go on with the tokens.
* `Grammar.Loop` — what the loop of a strength yields behind a value.
* `Grammar.Complete` — the readers read what is derived.

## Main results

* `Grammar.Derives.complete`, `Grammar.StatementDerives.complete`, `Grammar.FileDerives.complete` —
  values and their parts, statements, and files.
-/

namespace StarlarkLint.Grammar

/-- The level of the reader that reads the values of a strength. -/
def levelOf (k : Nat) : Nat := if k ≤ 2 then k else min (k - 1) 6

/-- A value whose operators bind at least as tightly as the strength says ends in front of the
tokens: they neither go on with it nor join it. -/
def Stops (k : Nat) (ts : List Token) : Prop :=
  ∀ t rest, ts = t :: rest → t.kind ≠ .string ∧ (k ≤ 8 → t.kind ≠ .dot ∧ t.kind ≠ .lparen) ∧
    ∀ op, Operator.binary? t rest = some op → ∀ j, op ∈ operators j → j < k

/-- What the loop of a strength yields behind a value; prefixes have no loop. -/
def Loop (k : Nat) (left : Node) (ts : List Token) (v : Node) (out : List Token) : Prop :=
  if k = 8 then Yields (postfixes left ts) v out
  else if k = 2 ∨ k = 7 then left = v ∧ ts = out
  else Yields (operation (levelOf k) left ts) v out

theorem Stops.mono {j k : Nat} {ts : List Token} (h : Stops j ts) (hjk : j ≤ k) : Stops k ts := by
  intro t rest heq
  obtain ⟨hstring, hpost, hop⟩ := h t rest heq
  exact ⟨hstring, fun hk => hpost (by omega), fun op hbin i hi =>
    Nat.lt_of_lt_of_le (hop op hbin i hi) hjk⟩

theorem stops_nil (k : Nat) : Stops k [] := by
  intro t rest heq
  cases heq

/-- A token that is neither an operator nor opens anything ends every value. -/
theorem stops_of_kind {t : Token} (k : Nat) (rest : List Token)
    (h : t.kind ∉ [TokenKind.string, .dot, .lparen, .keyword])
    (hsign : t.kind ∉ Operator.signKinds) : Stops k (t :: rest) := by
  rintro _ _ ⟨⟩
  simp only [List.mem_cons, List.not_mem_nil, or_false, not_or] at h
  refine ⟨h.1, fun _ => ⟨h.2.1, h.2.2.1⟩, fun op hop => ?_⟩
  simp [Operator.binary?, h.2.2.2, hsign] at hop

/-- A dot and a parenthesis go on with a value of strength eight, but with none that is stronger. -/
theorem stops_nine {t : Token} (h : t.kind = .dot ∨ t.kind = .lparen) (rest : List Token) :
    Stops 9 (t :: rest) := by
  rintro _ _ ⟨⟩
  refine ⟨?_, fun hle => absurd hle (by decide), fun op hop => ?_⟩
  · rcases h with h | h <;> simp [h]
  · rcases h with h | h <;> simp [Operator.binary?, h, Operator.signKinds] at hop

theorem lt_of_mem_operators {k : Nat} {op : String} (h : op ∈ operators k) : k < 7 := by
  match k with
  | 0 | 1 | 2 | 3 | 4 | 5 | 6 => decide
  | k + 7 => exact absurd h List.not_mem_nil

/-- An operator has one strength. -/
theorem eq_of_mem_operators {j k : Nat} {op : String} (hj : op ∈ operators j)
    (hk : op ∈ operators k) : j = k := by
  have hall : ∀ j < 7, ∀ k < 7, ∀ op ∈ operators j, op ∈ operators k → j = k := by decide
  exact hall j (lt_of_mem_operators hj) k (lt_of_mem_operators hk) op hj hk

/-- The loops go on with the operators of their strength only. -/
theorem mem_operators_of_mem_atLevel_levelOf {k : Nat} {op : String} (hk : ¬ (k = 2 ∨ k = 7))
    (h : op ∈ Operator.atLevel (levelOf k)) : op ∈ operators k := by
  match k with
  | 0 | 1 | 3 | 4 | 5 | 6 => exact h
  | 2 | 7 => exact absurd (by decide) hk
  | k + 8 =>
    rw [show levelOf (k + 8) = 6 by unfold levelOf; split <;> omega] at h
    exact absurd h List.not_mem_nil

theorem mem_atLevel_of_mem_operators {k : Nat} {op : String} (h : op ∈ operators k) :
    op ∈ Operator.atLevel (levelOf k) := by
  match k with
  | 0 | 1 | 3 | 4 | 5 | 6 => exact h
  | 2 => exact absurd h List.not_mem_nil
  | k + 7 => exact absurd h List.not_mem_nil

/-- The loop does nothing where the value ends. -/
theorem loop_of_stops {k : Nat} {left : Node} {ts : List Token} (h : Stops k ts) :
    Loop k left ts left ts := by
  unfold Loop
  split
  · next hk =>
    subst hk
    cases ts with
    | nil => exact yields_postfixes_nil.mpr ⟨rfl, rfl⟩
    | cons t rest =>
      obtain ⟨-, hpost, -⟩ := h t rest rfl
      obtain ⟨hdot, hparen⟩ := hpost (Nat.le_refl 8)
      rw [yields_postfixes_cons, if_neg hdot, if_neg hparen]
      exact ⟨rfl, rfl⟩
  · split
    · exact ⟨rfl, rfl⟩
    · next hk =>
      cases ts with
      | nil => exact yields_operation_nil.mpr ⟨rfl, rfl⟩
      | cons t rest =>
        obtain ⟨-, -, hop⟩ := h t rest rfl
        refine yields_operation_cons.mpr (.inr ⟨fun op hbin hmem => ?_, rfl, rfl⟩)
        exact Nat.lt_irrefl k (hop op hbin k (mem_operators_of_mem_atLevel_levelOf hk hmem))

/-! ### One lemma for each way to derive -/

/-- The readers read the symbols as the node. -/
def Complete : Category → List Symbol → Node → Prop
  | .value k, ss, n => ∀ used rest, used.map Token.symbol = ss → Stops (k + 1) rest →
      ∃ node : Node, node.bare = n ∧ ∀ v out, Loop k node rest v out →
        Yields (expression (levelOf k) (used ++ rest)) v out
  | .argument, ss, n => ∀ used rest, used.map Token.symbol = ss → Stops 0 rest →
      (∀ t ∈ rest.head?, t.kind ≠ .equals) →
      ∃ node : Node, node.bare = n ∧ Yields (argument (used ++ rest)) node rest
  | .entry, ss, n => ∀ used rest, used.map Token.symbol = ss → Stops 0 rest →
      ∃ node : Node, node.bare = n ∧ Yields (entry (used ++ rest)) node rest
  | .members kind, ss, n => ∀ used rest, used.map Token.symbol = ss →
      ∃ (nodes : List Node) (close : Token), .list {} (Node.bareAll nodes) = n ∧
        Yields (sequence kind (used ++ rest)) (nodes, close) rest

/-- Where a value ends, its reader yields it. -/
theorem Complete.closed {k : Nat} {used rest : List Token} {n : Node}
    (h : Complete (.value k) (used.map Token.symbol) n) (hrest : Stops k rest) :
    ∃ node : Node, node.bare = n ∧ Yields (expression (levelOf k) (used ++ rest)) node rest := by
  obtain ⟨node, hnode, hloop⟩ := h used rest rfl (hrest.mono (Nat.le_succ k))
  exact ⟨node, hnode, hloop _ _ (loop_of_stops hrest)⟩

theorem Derives.strength_le {k : Nat} {ss : List Symbol} {n : Node}
    (h : Derives (.value k) ss n) : k ≤ 8 := by
  generalize hc : Category.value k = c at h
  induction h generalizing k with
  | tighter _ ih =>
    cases hc
    exact Nat.le_of_succ_le (ih rfl)
  | operation _ _ hop _ _ _ =>
    cases hc
    exact Nat.le_succ_of_le (Nat.le_of_lt (lt_of_mem_operators hop))
  | _ => cases hc <;> decide

theorem yields_expression_six {ts : List Token} {v : Node} {out : List Token} :
    Yields (expression 6 ts) v out ↔ Yields (unary ts) v out := by
  cases ts with
  | nil => simp
  | cons t rest => simp [yields_expression_cons, isNot, Operator.notLevel]

theorem isNot_eq_false_of_kind {level : Nat} {t : Token} (h : t.kind ≠ .keyword) :
    isNot level t = false := by
  simp [isNot, h]

theorem complete_tighter {k : Nat} {ss : List Symbol} {n : Node}
    (h : Derives (.value (k + 1)) ss n) (ih : Complete (.value (k + 1)) ss n) :
    Complete (.value k) ss n := by
  rintro used rest rfl hrest
  obtain ⟨node, hnode, hclosed⟩ := ih.closed hrest
  refine ⟨node, hnode, fun v out hloop => ?_⟩
  obtain ⟨_, _, hused, hs⟩ := h.startsValue
  obtain ⟨t, us, rfl, rfl, -⟩ := List.map_eq_cons_iff.mp hused
  rw [List.cons_append] at hclosed ⊢
  unfold Loop at hloop
  match k with
  -- these two strengths share the reader of the next
  | 2 | 7 =>
    obtain ⟨rfl, rfl⟩ := hloop
    exact hclosed
  | 0 | 1 =>
    rw [yields_expression_cons, if_neg (by simp [isNot, levelOf, Operator.notLevel]),
      if_pos (by decide)]
    exact ⟨node, rest, hclosed, hloop⟩
  | 3 | 4 | 5 | 6 =>
    have hnot := hs.kind_ne_keyword (by decide)
    rw [yields_expression_cons, if_neg (by simp [isNot_eq_false_of_kind hnot]),
      if_pos (by decide)]
    exact ⟨node, rest, hclosed, hloop⟩
  | k + 8 => exact absurd h.strength_le (by omega)

/-- The tokens that spell an operator are read as it, whatever follows them. -/
theorem binary?_of_spells {used : List Token} {op : String}
    (h : Spells (used.map Token.symbol) op) :
    ∃ t us, used = t :: us ∧ t.kind ∈ .keyword :: Operator.signKinds ∧
      ∀ rest, Operator.binary? t (us ++ rest) = some op ∧
        (us ++ rest).drop (Operator.width op - 1) = rest := by
  generalize hss : used.map Token.symbol = ss at h
  cases h with
  | sign hsign =>
    obtain ⟨t, rfl, rfl⟩ := List.map_eq_singleton_iff.mp hss
    have hkind := kind_mem_signKinds hsign
    have hkey : t.kind ≠ .keyword := by
      rintro heq
      rw [Token.kind_symbol, heq] at hkind
      exact absurd hkind (by decide)
    have hone : ∀ s ∈ signs, Operator.width s.value = 1 := by decide
    have hwidth : Operator.width t.value = 1 := hone _ hsign
    rw [Token.kind_symbol] at hkind
    refine ⟨t, [], rfl, List.mem_cons_of_mem _ hkind, fun rest => ⟨?_, by simp [hwidth]⟩⟩
    simp [Operator.binary?, hkey, hkind]
  | word hkind hvalue =>
    obtain ⟨t, rfl, rfl⟩ := List.map_eq_singleton_iff.mp hss
    have hne : ∀ word ∈ ["and", "or", "in"], word ≠ "not" ∧ Operator.width word = 1 := by decide
    obtain ⟨hnot, hwidth⟩ := hne _ hvalue
    rw [Token.kind_symbol] at hkind
    rw [Token.value_symbol] at hnot hwidth hvalue
    refine ⟨t, [], rfl, by simp [hkind], fun rest => ⟨?_, by simp [hwidth]⟩⟩
    unfold Operator.binary?
    rw [if_pos hkind, if_neg hnot, if_pos hvalue, Token.value_symbol]
  | notIn =>
    obtain ⟨t, _, rfl, ht, hus⟩ := List.map_eq_cons_iff.mp hss
    obtain ⟨u, rfl, hu⟩ := List.map_eq_singleton_iff.mp hus
    simp only [Token.symbol, Symbol.mk.injEq] at ht hu
    refine ⟨t, [u], rfl, by simp [ht], fun rest => ⟨?_, rfl⟩⟩
    simp [Operator.binary?, Operator.startsWithIn, ht, hu]

/-- An operator ends the values that bind more tightly than it. -/
theorem stops_of_spells {k : Nat} {used : List Token} {op : String} (rest : List Token)
    (h : Spells (used.map Token.symbol) op) (hop : op ∈ operators k) :
    Stops (k + 1) (used ++ rest) := by
  obtain ⟨t, us, rfl, hkind, hread⟩ := binary?_of_spells h
  rintro _ _ ⟨⟩
  have hne : ∀ kind ∈ .keyword :: Operator.signKinds,
      kind ≠ .string ∧ kind ≠ .dot ∧ kind ≠ .lparen := by decide
  obtain ⟨hstring, hpost⟩ := hne _ hkind
  refine ⟨hstring, fun _ => hpost, fun op' hop' j hj => ?_⟩
  obtain rfl : op = op' := Option.some.inj ((hread rest).1.symm.trans hop')
  exact Nat.lt_succ_of_le (Nat.le_of_eq (eq_of_mem_operators hj hop))

theorem complete_operation {k : Nat} {xs os ys : List Symbol} {x y : Node} {op : String}
    (hx : Complete (.value k) xs x) (hspells : Spells os op) (hop : op ∈ operators k)
    (hy : Complete (.value (k + 1)) ys y) :
    Complete (.value k) (xs ++ (os ++ ys)) (.binary {} op x y) := by
  intro used rest hused hrest
  obtain ⟨ux, _, rfl, rfl, hused'⟩ := List.map_eq_append_iff.mp hused
  obtain ⟨uo, uy, rfl, rfl, rfl⟩ := List.map_eq_append_iff.mp hused'
  obtain ⟨left, rfl, hleft⟩ :=
    hx ux (uo ++ (uy ++ rest)) rfl (stops_of_spells (uy ++ rest) hspells hop)
  obtain ⟨right, rfl, hright⟩ := hy.closed hrest
  obtain ⟨t, us, rfl, -, hread⟩ := binary?_of_spells hspells
  obtain ⟨hbin, hdrop⟩ := hread (uy ++ rest)
  refine ⟨.binary ⟨left.span.start, right.span.stop⟩ op left right, rfl, fun v out hloop => ?_⟩
  rw [List.append_assoc, List.append_assoc]
  refine hleft v out ?_
  -- the loop takes the operator and its right operand, and goes on
  have hone : Loop k left (t :: (us ++ (uy ++ rest))) v out := by
    unfold Loop at hloop ⊢
    match k with
    | 0 | 1 | 3 | 4 | 5 | 6 =>
      refine yields_operation_cons.mpr (.inl ⟨op, hbin, mem_atLevel_of_mem_operators hop, ?_⟩)
      exact ⟨right, rest, by rw [hdrop]; exact hright, hloop⟩
    | 2 => exact absurd hop List.not_mem_nil
    | k + 7 => exact absurd hop List.not_mem_nil
  exact hone

theorem complete_negation {ss : List Symbol} {n : Node} (h : Complete (.value 2) ss n) :
    Complete (.value 2) (⟨.keyword, "not"⟩ :: ss) (.unary {} "not" n) := by
  intro used rest hused hrest
  obtain ⟨t, us, rfl, ht, rfl⟩ := List.map_eq_cons_iff.mp hused
  obtain ⟨node, rfl, hnode⟩ := h us rest rfl hrest
  simp only [Token.symbol, Symbol.mk.injEq] at ht
  refine ⟨.unary ⟨t.span.start, node.span.stop⟩ "not" node, rfl, fun v out hloop => ?_⟩
  obtain ⟨rfl, rfl⟩ := hloop
  rw [List.cons_append, yields_expression_cons,
    if_pos (by simp [isNot, levelOf, Operator.notLevel, ht])]
  exact ⟨node, hnode _ _ ⟨rfl, rfl⟩, rfl⟩

theorem complete_sign {s : Symbol} {ss : List Symbol} {n : Node}
    (hsign : s.kind = .minus ∨ s.kind = .plus) (h : Complete (.value 7) ss n) :
    Complete (.value 7) (s :: ss) (.unary {} s.value n) := by
  intro used rest hused hrest
  obtain ⟨t, us, rfl, rfl, rfl⟩ := List.map_eq_cons_iff.mp hused
  rw [Token.kind_symbol] at hsign
  obtain ⟨node, rfl, hnode⟩ := h us rest rfl hrest
  refine ⟨.unary ⟨t.span.start, node.span.stop⟩ t.value node, rfl, fun v out hloop => ?_⟩
  obtain ⟨rfl, rfl⟩ := hloop
  refine yields_expression_six.mpr ?_
  rw [List.cons_append, yields_unary_cons, if_pos hsign]
  exact ⟨node, yields_expression_six.mp (hnode _ _ ⟨rfl, rfl⟩), rfl⟩

theorem complete_member {ss : List Symbol} {n : Node} {dot name : Symbol}
    (h : Complete (.value 8) ss n) (hdot : dot.kind = .dot) (hname : name.kind = .identifier) :
    Complete (.value 8) (ss ++ [dot, name]) (.member {} n name.value) := by
  intro used rest hused hrest
  obtain ⟨us, _, rfl, rfl, hused'⟩ := List.map_eq_append_iff.mp hused
  obtain ⟨d, _, rfl, rfl, hused''⟩ := List.map_eq_cons_iff.mp hused'
  obtain ⟨m, rfl, rfl⟩ := List.map_eq_singleton_iff.mp hused''
  rw [Token.kind_symbol] at hdot hname
  obtain ⟨node, rfl, hnode⟩ := h us (d :: m :: rest) rfl (stops_nine (.inl hdot) (m :: rest))
  refine ⟨.member ⟨node.span.start, m.span.stop⟩ node m.value, rfl, fun v out hloop => ?_⟩
  rw [List.append_assoc]
  refine hnode v out ?_
  show Yields (postfixes node (d :: m :: rest)) v out
  rw [yields_postfixes_cons, if_pos hdot]
  exact ⟨m, rest, rfl, hname, hloop⟩

theorem complete_call {ss as : List Symbol} {n : Node} {args : List Node} {opening : Symbol}
    (h : Complete (.value 8) ss n) (hopening : opening.kind = .lparen)
    (hargs : Complete (.members .arguments) as (.list {} args)) :
    Complete (.value 8) (ss ++ opening :: as) (.call {} n args) := by
  intro used rest hused hrest
  obtain ⟨us, _, rfl, rfl, hused'⟩ := List.map_eq_append_iff.mp hused
  obtain ⟨o, ua, rfl, rfl, rfl⟩ := List.map_eq_cons_iff.mp hused'
  rw [Token.kind_symbol] at hopening
  obtain ⟨node, rfl, hnode⟩ :=
    h us (o :: (ua ++ rest)) rfl (stops_nine (.inr hopening) (ua ++ rest))
  obtain ⟨nodes, close, heq, hmembers⟩ := hargs ua rest rfl
  obtain rfl : Node.bareAll nodes = args := by simpa using heq
  refine ⟨.call ⟨node.span.start, close.span.stop⟩ node nodes, rfl, fun v out hloop => ?_⟩
  rw [List.append_assoc]
  refine hnode v out ?_
  show Yields (postfixes node (o :: (ua ++ rest))) v out
  rw [yields_postfixes_cons, if_neg (by simp [hopening]), if_pos hopening]
  exact ⟨(nodes, close), rest, hmembers, hloop⟩

/-- A primary is handed to the loop of members and calls. -/
theorem yields_expression_of_primary {t : Token} {rest mid : List Token} {node v : Node}
    {out : List Token} (hkind : t.kind ≠ .minus ∧ t.kind ≠ .plus)
    (h : Yields (primary (t :: rest)) node mid) (hloop : Loop 8 node mid v out) :
    Yields (expression (levelOf 8) (t :: rest)) v out := by
  refine yields_expression_six.mpr ?_
  rw [yields_unary_cons, if_neg (by simp [hkind])]
  exact ⟨node, mid, h, hloop⟩

theorem complete_name {s : Symbol} (hkind : s.kind = .identifier)
    (hfree : s.value ∉ reservedWords) : Complete (.value 8) [s] (.ident {} s.value) := by
  intro used rest hused hrest
  obtain ⟨t, rfl, rfl⟩ := List.map_eq_singleton_iff.mp hused
  rw [Token.kind_symbol] at hkind
  refine ⟨.ident t.span t.value, rfl, fun v out =>
    yields_expression_of_primary (by simp [hkind]) ?_⟩
  rw [yields_primary_cons, hkind]
  exact ⟨hfree, rfl, rfl⟩

theorem complete_number {s : Symbol} (hkind : s.kind = .number) :
    Complete (.value 8) [s] (.number {} s.value) := by
  intro used rest hused hrest
  obtain ⟨t, rfl, rfl⟩ := List.map_eq_singleton_iff.mp hused
  rw [Token.kind_symbol] at hkind
  refine ⟨.number t.span t.value, rfl, fun v out =>
    yields_expression_of_primary (by simp [hkind]) ?_⟩
  rw [yields_primary_cons, hkind]
  exact ⟨rfl, rfl⟩

theorem complete_string {s : Symbol} {ss : List Symbol} (hkind : s.kind = .string)
    (hkinds : ∀ t ∈ ss, t.kind = .string) :
    Complete (.value 8) (s :: ss) (.string {} (String.join (s.value :: ss.map (·.value)))) := by
  intro used rest hused hrest
  obtain ⟨t, us, rfl, rfl, rfl⟩ := List.map_eq_cons_iff.mp hused
  rw [Token.kind_symbol] at hkind
  -- the strings are those that belong to the value, since no string follows it
  have htake : (us ++ rest).takeWhile (·.kind = .string) = us := by
    rw [List.takeWhile_append_of_pos]
    · cases rest with
      | nil => simp
      | cons u rest => simp [(hrest u rest rfl).1]
    · intro u hu
      simpa using hkinds u.symbol (List.mem_map_of_mem hu)
  refine ⟨joinStrings t us, by simp [joinStrings, Node.bare, Function.comp_def], fun v out =>
    yields_expression_of_primary (by simp [hkind]) ?_⟩
  show Yields (primary (t :: (us ++ rest))) (joinStrings t us) rest
  rw [yields_primary_cons, hkind]
  dsimp only
  rw [htake]
  exact ⟨rfl, by simp⟩

theorem complete_list {opening : Symbol} {ss : List Symbol} {items : List Node}
    (hopening : opening.kind = .lbracket) (h : Complete (.members .items) ss (.list {} items)) :
    Complete (.value 8) (opening :: ss) (.list {} items) := by
  intro used rest hused hrest
  obtain ⟨t, us, rfl, rfl, rfl⟩ := List.map_eq_cons_iff.mp hused
  rw [Token.kind_symbol] at hopening
  obtain ⟨nodes, close, heq, hmembers⟩ := h us rest rfl
  refine ⟨.list ⟨t.span.start, close.span.stop⟩ nodes, heq, fun v out =>
    yields_expression_of_primary (by simp [hopening]) ?_⟩
  rw [yields_primary_cons, hopening]
  exact ⟨(nodes, close), hmembers, rfl⟩

theorem complete_dict {opening : Symbol} {ss : List Symbol} {entries : List Node}
    (hopening : opening.kind = .lbrace)
    (h : Complete (.members .entries) ss (.list {} entries)) :
    Complete (.value 8) (opening :: ss) (.dict {} entries) := by
  intro used rest hused hrest
  obtain ⟨t, us, rfl, rfl, rfl⟩ := List.map_eq_cons_iff.mp hused
  rw [Token.kind_symbol] at hopening
  obtain ⟨nodes, close, heq, hmembers⟩ := h us rest rfl
  obtain rfl : Node.bareAll nodes = entries := by simpa using heq
  refine ⟨.dict ⟨t.span.start, close.span.stop⟩ nodes, rfl, fun v out =>
    yields_expression_of_primary (by simp [hopening]) ?_⟩
  rw [yields_primary_cons, hopening]
  exact ⟨(nodes, close), hmembers, rfl⟩

theorem complete_parenthesised {opening closing : Symbol} {ss : List Symbol} {n : Node}
    (hopening : opening.kind = .lparen) (h : Complete (.value 0) ss n)
    (hclosing : closing.kind = .rparen) :
    Complete (.value 8) (opening :: (ss ++ [closing])) n := by
  intro used rest hused hrest
  obtain ⟨t, _, rfl, rfl, hused'⟩ := List.map_eq_cons_iff.mp hused
  obtain ⟨us, _, rfl, rfl, hused''⟩ := List.map_eq_append_iff.mp hused'
  obtain ⟨c, rfl, rfl⟩ := List.map_eq_singleton_iff.mp hused''
  rw [Token.kind_symbol] at hopening hclosing
  obtain ⟨node, rfl, hnode⟩ := h.closed
    (stops_of_kind (t := c) 0 rest (by simp [hclosing]) (by simp [hclosing, Operator.signKinds]))
  refine ⟨node.withSpan ⟨t.span.start, c.span.stop⟩, by simp, fun v out =>
    yields_expression_of_primary (by simp [hopening]) ?_⟩
  rw [yields_primary_cons, hopening]
  refine ⟨node, c, rest, ?_, hclosing, rfl, rfl⟩
  show Yields (expression 0 (us ++ [c] ++ rest)) node (c :: rest)
  rw [List.append_assoc]
  exact hnode

theorem complete_positional {ss : List Symbol} {n : Node} (hd : Derives (.value 0) ss n)
    (h : Complete (.value 0) ss n) : Complete .argument ss n := by
  rintro used rest rfl hrest hequals
  obtain ⟨node, rfl, hnode⟩ := h.closed hrest
  obtain ⟨_, _, hused, hs⟩ := hd.startsValue
  obtain ⟨t, us, rfl, rfl, -⟩ := List.map_eq_cons_iff.mp hused
  refine ⟨node, rfl, ?_⟩
  have hstar : ¬ (t.kind = .star ∨ t.kind = .doubleStar) := by
    have hkind := hs.kind_mem
    rw [Token.kind_symbol] at hkind
    rintro (h | h) <;> simp [h, startKinds] at hkind
  rw [List.cons_append, yields_argument_cons, if_neg hstar]
  refine .inr ⟨fun sign hsign => ?_, hnode⟩
  -- the token behind the first is the second of the value, or the first that follows it
  have hne : sign.kind ≠ .equals := by
    cases us with
    | nil => exact hequals sign hsign
    | cons u us =>
      obtain ⟨_, _, heq, htail⟩ := hd.second_ne_equals
      obtain ⟨rfl, rfl⟩ := List.cons.inj heq
      obtain rfl : u = sign := by simpa using hsign
      exact htail u.symbol rfl
  simp [isKeywordArgument, hne]

theorem complete_starred {star : Symbol} {ss : List Symbol} {n : Node}
    (hstar : star.kind = .star ∨ star.kind = .doubleStar) (h : Complete (.value 0) ss n) :
    Complete .argument (star :: ss) (.unary {} star.value n) := by
  intro used rest hused hrest _
  obtain ⟨t, us, rfl, rfl, rfl⟩ := List.map_eq_cons_iff.mp hused
  rw [Token.kind_symbol] at hstar
  obtain ⟨node, rfl, hnode⟩ := h.closed hrest
  refine ⟨.unary ⟨t.span.start, node.span.stop⟩ t.value node, rfl, ?_⟩
  rw [List.cons_append, yields_argument_cons, if_pos hstar]
  exact ⟨node, hnode, rfl⟩

theorem complete_keyword {name sign : Symbol} {ss : List Symbol} {n : Node}
    (hname : name.kind = .identifier) (hsign : sign.kind = .equals)
    (h : Complete (.value 0) ss n) :
    Complete .argument (name :: sign :: ss) (.assign {} (.ident {} name.value) "=" n) := by
  intro used rest hused hrest _
  obtain ⟨t, _, rfl, rfl, hused'⟩ := List.map_eq_cons_iff.mp hused
  obtain ⟨u, us, rfl, rfl, rfl⟩ := List.map_eq_cons_iff.mp hused'
  rw [Token.kind_symbol] at hname hsign
  obtain ⟨node, rfl, hnode⟩ := h.closed hrest
  refine ⟨.assign ⟨t.span.start, node.span.stop⟩ (.ident t.span t.value) "=" node, rfl, ?_⟩
  rw [List.cons_append, yields_argument_cons, if_neg (by simp [hname])]
  exact .inl ⟨u, us ++ rest, rfl, by simp [isKeywordArgument, hname, hsign], node, hnode, rfl⟩

theorem complete_entry {ks vs : List Symbol} {key value : Node} {colon : Symbol}
    (hkey : Complete (.value 0) ks key) (hcolon : colon.kind = .colon)
    (hvalue : Complete (.value 0) vs value) :
    Complete .entry (ks ++ colon :: vs) (.entry {} key value) := by
  intro used rest hused hrest
  obtain ⟨uk, _, rfl, rfl, hused'⟩ := List.map_eq_append_iff.mp hused
  obtain ⟨c, uv, rfl, rfl, rfl⟩ := List.map_eq_cons_iff.mp hused'
  rw [Token.kind_symbol] at hcolon
  have hstops : Stops 0 (c :: (uv ++ rest)) :=
    stops_of_kind 0 _ (by simp [hcolon]) (by simp [hcolon, Operator.signKinds])
  obtain ⟨knode, rfl, hknode⟩ := hkey.closed hstops
  obtain ⟨vnode, rfl, hvnode⟩ := hvalue.closed hrest
  refine ⟨.entry ⟨knode.span.start, vnode.span.stop⟩ knode vnode, rfl, ?_⟩
  rw [List.append_assoc]
  exact yields_entry.mpr ⟨knode, c, uv ++ rest, hknode, hcolon, vnode, hvnode, rfl⟩

/-- A member of a sequence, in front of a comma or a closing bracket. -/
theorem Complete.item {kind : Sequence} {used : List Token} {n : Node} {t : Token}
    (h : Complete kind.member (used.map Token.symbol) n)
    (ht : t.kind = .comma ∨ t.kind = kind.closer) (rest : List Token) :
    ∃ node : Node, node.bare = n ∧ Yields (item kind (used ++ t :: rest)) node (t :: rest) := by
  have hkinds : t.kind ∈ [TokenKind.comma, .rparen, .rbracket, .rbrace] := by
    cases kind <;> rcases ht with ht | ht <;> simp [ht, Sequence.closer]
  have hstops : Stops 0 (t :: rest) := by
    have hne : ∀ k ∈ [TokenKind.comma, .rparen, .rbracket, .rbrace],
        k ∉ [TokenKind.string, .dot, .lparen, .keyword] ∧ k ∉ Operator.signKinds := by decide
    obtain ⟨hother, hsign⟩ := hne _ hkinds
    exact stops_of_kind 0 rest hother hsign
  simp only [yields_item]
  cases kind with
  | arguments =>
    refine h used (t :: rest) rfl hstops ?_
    simp only [List.head?_cons, Option.mem_def, Option.some.injEq, forall_eq']
    rintro heq
    simp [heq] at hkinds
  | items => exact Complete.closed h hstops
  | entries => exact h used (t :: rest) rfl hstops

theorem complete_close {kind : Sequence} {closing : Symbol}
    (hclosing : closing.kind = kind.closer) :
    Complete (.members kind) [closing] (.list {} []) := by
  intro used rest hused
  obtain ⟨t, rfl, rfl⟩ := List.map_eq_singleton_iff.mp hused
  rw [Token.kind_symbol] at hclosing
  refine ⟨[], t, rfl, ?_⟩
  show Yields (sequence kind (t :: rest)) ([], t) rest
  rw [yields_sequence_cons, if_pos hclosing]
  exact ⟨rfl, rfl⟩

theorem complete_last {kind : Sequence} {ss : List Symbol} {n : Node} {closing : Symbol}
    (hd : Derives kind.member ss n) (h : Complete kind.member ss n)
    (hclosing : closing.kind = kind.closer) :
    Complete (.members kind) (ss ++ [closing]) (.list {} [n]) := by
  intro used rest hused
  obtain ⟨us, _, rfl, rfl, hused'⟩ := List.map_eq_append_iff.mp hused
  obtain ⟨c, rfl, rfl⟩ := List.map_eq_singleton_iff.mp hused'
  rw [Token.kind_symbol] at hclosing
  obtain ⟨_, _, hus, hclose, hend⟩ := hd.head_member
  obtain ⟨t, us, rfl, rfl, -⟩ := List.map_eq_cons_iff.mp hus
  rw [Token.kind_symbol] at hclose hend
  obtain ⟨node, rfl, hnode⟩ := h.item (.inr hclosing) rest
  refine ⟨[node], c, rfl, ?_⟩
  rw [List.append_assoc, List.cons_append, yields_sequence_cons, if_neg hclose]
  refine ⟨hend, node, c, rest, hnode, ?_⟩
  rw [if_neg (by rw [hclosing]; cases kind <;> decide)]
  exact ⟨hclosing, rfl, rfl⟩

theorem complete_more {kind : Sequence} {ss ts : List Symbol} {n : Node} {ns : List Node}
    {comma : Symbol} (hd : Derives kind.member ss n) (h : Complete kind.member ss n)
    (hcomma : comma.kind = .comma) (hmore : Complete (.members kind) ts (.list {} ns)) :
    Complete (.members kind) (ss ++ comma :: ts) (.list {} (n :: ns)) := by
  intro used rest hused
  obtain ⟨us, _, rfl, rfl, hused'⟩ := List.map_eq_append_iff.mp hused
  obtain ⟨c, um, rfl, rfl, rfl⟩ := List.map_eq_cons_iff.mp hused'
  rw [Token.kind_symbol] at hcomma
  obtain ⟨_, _, hus, hclose, hend⟩ := hd.head_member
  obtain ⟨t, us, rfl, rfl, -⟩ := List.map_eq_cons_iff.mp hus
  rw [Token.kind_symbol] at hclose hend
  obtain ⟨node, rfl, hnode⟩ := h.item (.inl hcomma) (um ++ rest)
  obtain ⟨nodes, close, heq, hnodes⟩ := hmore um rest rfl
  obtain rfl : Node.bareAll nodes = ns := by simpa using heq
  refine ⟨node :: nodes, close, rfl, ?_⟩
  rw [List.append_assoc, List.cons_append, yields_sequence_cons, if_neg hclose]
  refine ⟨hend, node, c, um ++ rest, hnode, ?_⟩
  rw [if_pos hcomma]
  exact ⟨(nodes, close), hnodes, rfl⟩

/-- **What is derived is read.** -/
theorem Derives.complete {c : Category} {ss : List Symbol} {n : Node} (h : Derives c ss n) :
    Complete c ss n := by
  induction h with
  | tighter h ih => exact complete_tighter h ih
  | operation _ hspells hop _ ihx ihy => exact complete_operation ihx hspells hop ihy
  | negation _ ih => exact complete_negation ih
  | sign hsign _ ih => exact complete_sign hsign ih
  | member _ hdot hname ih => exact complete_member ih hdot hname
  | call _ hopening _ ih ihargs => exact complete_call ih hopening ihargs
  | name hkind hfree => exact complete_name hkind hfree
  | string hkind hkinds => exact complete_string hkind hkinds
  | number hkind => exact complete_number hkind
  | list hopening _ ih => exact complete_list hopening ih
  | dict hopening _ ih => exact complete_dict hopening ih
  | parenthesised hopening _ hclosing ih => exact complete_parenthesised hopening ih hclosing
  | positional h ih => exact complete_positional h ih
  | starred hstar _ ih => exact complete_starred hstar ih
  | keyword hname hsign _ ih => exact complete_keyword hname hsign ih
  | entry _ hcolon _ ihkey ihvalue => exact complete_entry ihkey hcolon ihvalue
  | close hclosing => exact complete_close hclosing
  | last h hclosing ih => exact complete_last h ih hclosing
  | more h hcomma _ ih ihmore => exact complete_more h ih hcomma ihmore

/-! ### Statements -/

/-- What stands behind an argument of a load ends it. -/
theorem LoadDerives.head {ss : List Symbol} {ns : List Node} (h : LoadDerives ss ns) :
    ∃ s ts, ss = s :: ts ∧ (s.kind = .comma ∨ s.kind = .rparen) := by
  cases h with
  | close hclosing => exact ⟨_, _, rfl, .inr hclosing⟩
  | closeBehindComma hcomma _ => exact ⟨_, _, rfl, .inl hcomma⟩
  | more hcomma _ _ => exact ⟨_, _, rfl, .inl hcomma⟩

/-- **The arguments of a load that are derived are read.** -/
theorem LoadDerives.complete {ss : List Symbol} {ns : List Node} (h : LoadDerives ss ns) :
    ∀ used rest, used.map Token.symbol = ss → ∃ (nodes : List Node) (close : Token),
      Node.bareAll nodes = ns ∧ Yields (loadArguments (used ++ rest)) (nodes, close) rest := by
  induction h with
  | close hclosing =>
    intro used rest hused
    obtain ⟨t, rfl, rfl⟩ := List.map_eq_singleton_iff.mp hused
    rw [Token.kind_symbol] at hclosing
    refine ⟨[], t, rfl, ?_⟩
    show Yields (loadArguments (t :: rest)) ([], t) rest
    rw [yields_loadArguments_cons, if_pos hclosing]
    exact ⟨rfl, rfl⟩
  | closeBehindComma hcomma hclosing =>
    intro used rest hused
    obtain ⟨t, _, rfl, rfl, hused'⟩ := List.map_eq_cons_iff.mp hused
    obtain ⟨u, rfl, rfl⟩ := List.map_eq_singleton_iff.mp hused'
    rw [Token.kind_symbol] at hcomma hclosing
    refine ⟨[], u, rfl, ?_⟩
    show Yields (loadArguments (t :: u :: rest)) ([], u) rest
    rw [yields_loadArguments_cons, if_neg (by simp [hcomma])]
    refine ⟨hcomma, u, rest, rfl, ?_⟩
    rw [if_pos hclosing]
    exact ⟨rfl, rfl⟩
  | more hcomma h hmore ih =>
    intro used rest hused
    obtain ⟨t, _, rfl, rfl, hused'⟩ := List.map_eq_cons_iff.mp hused
    obtain ⟨us, um, rfl, rfl, rfl⟩ := List.map_eq_append_iff.mp hused'
    rw [Token.kind_symbol] at hcomma
    obtain ⟨nodes, close, rfl, hnodes⟩ := ih um rest rfl
    -- the argument ends at a comma or at the closing parenthesis
    obtain ⟨_, _, hum, hend⟩ := hmore.head
    obtain ⟨e, um, rfl, rfl, rfl⟩ := List.map_eq_cons_iff.mp hum
    rw [Token.kind_symbol] at hend
    have hmember : Derives Sequence.arguments.member (us.map Token.symbol) _ := h
    obtain ⟨node, rfl, hnode⟩ := hmember.complete.item hend (um ++ rest)
    rw [yields_item] at hnode
    obtain ⟨_, _, hus, hclose, -⟩ := hmember.head_member
    obtain ⟨u, us, rfl, rfl, -⟩ := List.map_eq_cons_iff.mp hus
    rw [Token.kind_symbol] at hclose
    refine ⟨node :: nodes, close, rfl, ?_⟩
    rw [List.cons_append, yields_loadArguments_cons, if_neg (by simp [hcomma])]
    refine ⟨hcomma, u, us ++ (e :: um ++ rest), by simp, ?_⟩
    rw [if_neg (by simpa [Sequence.closer] using hclose)]
    exact ⟨node, _, hnode, (nodes, close), hnodes, rfl⟩

/-- Nothing goes on behind a statement. -/
theorem stops_of_endsStatement {rest : List Token} (h : ∀ t ∈ rest.head?, endsStatement t) :
    Stops 0 rest := by
  cases rest with
  | nil => exact stops_nil 0
  | cons t rest =>
    have hend := h t rfl
    simp only [endsStatement, decide_eq_true_eq] at hend
    rcases hend with hend | hend | hend <;>
      exact stops_of_kind 0 rest (by simp [hend]) (by simp [hend, Operator.signKinds])

/-- A value that does not read as a load is handed to the reader of assignments, whatever stands
behind it that opens no parenthesis. -/
theorem yields_statement_of_value {used rest : List Token} {n v : Node} {out : List Token}
    (hd : Derives (.value 0) (used.map Token.symbol) n)
    (hload : ¬ StartsLoad (used.map Token.symbol)) (hrest : ∀ t ∈ rest.head?, t.kind ≠ .lparen)
    (h : Yields (assignment (used ++ rest)) v out) : Yields (statement (used ++ rest)) v out := by
  obtain ⟨_, _, hused, hs⟩ := hd.startsValue
  obtain ⟨t, us, rfl, rfl, -⟩ := List.map_eq_cons_iff.mp hused
  have hfree : ¬ (t.kind = .identifier ∧ t.value ∈ reservedWords) := by
    rintro ⟨hkind, hreserved⟩
    rcases hs with ⟨-, hfree⟩ | hs | ⟨-, hs | hs⟩ | ⟨-, hs⟩
    · exact hfree hreserved
    · simp [hkind] at hs
    · simp [hkind] at hs
    · simp [hkind] at hs
    · simp [Token.symbol, hkind] at hs
  rw [List.cons_append, yields_statement_cons]
  refine ⟨hfree, .inr ⟨fun next hnext => ?_, h⟩⟩
  rintro ⟨hkind, hvalue, hparen⟩
  cases us with
  | nil => exact hrest next hnext hparen
  | cons u us =>
    obtain rfl : u = next := by simpa using hnext
    exact hload ⟨hkind, hvalue, hparen⟩

/-- **A statement that is derived is read**, in front of what may stand behind a statement. -/
theorem StatementDerives.complete {used rest : List Token} {n : Node}
    (h : StatementDerives (used.map Token.symbol) n) (hrest : ∀ t ∈ rest.head?, endsStatement t) :
    ∃ node : Node, node.bare = n ∧ Yields (statement (used ++ rest)) node rest := by
  generalize hss : used.map Token.symbol = ss at h
  have hends : ∀ t ∈ rest.head?, t.kind = .newline ∨ t.kind = .semicolon ∨ t.kind = .endOfFile := by
    intro t ht
    simpa [endsStatement] using hrest t ht
  cases h with
  | load hname hopening hmodule hargs =>
    obtain ⟨t, _, rfl, rfl, hss'⟩ := List.map_eq_cons_iff.mp hss
    obtain ⟨o, _, rfl, rfl, hss''⟩ := List.map_eq_cons_iff.mp hss'
    obtain ⟨m, us, rfl, rfl, rfl⟩ := List.map_eq_cons_iff.mp hss''
    rw [Token.kind_symbol, Token.value_symbol] at hname
    rw [Token.kind_symbol] at hopening hmodule
    obtain ⟨nodes, close, rfl, hnodes⟩ := hargs.complete us rest rfl
    refine ⟨.load ⟨t.span.start, close.span.stop⟩ (.string m.span m.value) nodes, rfl, ?_⟩
    show Yields (statement (t :: o :: m :: (us ++ rest))) _ rest
    rw [yields_statement_cons]
    refine ⟨by simp [hname.2, reservedWords], .inl ⟨o, _, rfl, ⟨hname.1, hname.2, hopening⟩, ?_⟩⟩
    exact yields_load.mpr ⟨m, us ++ rest, rfl, hmodule, (nodes, close), hnodes, rfl⟩
  | value h hload =>
    subst hss
    obtain ⟨node, rfl, hnode⟩ := h.complete.closed (stops_of_endsStatement hrest)
    refine ⟨node, rfl, yields_statement_of_value h hload (fun t ht => ?_) ?_⟩
    · rcases hends t ht with hend | hend | hend <;> simp [hend]
    · refine yields_assignment.mpr ⟨node, rest, hnode, .inr ⟨fun t ht => ?_, rfl, rfl⟩⟩
      rcases hends t ht with hend | hend | hend <;> simp [hend]
  | assign hx hsign hy hload =>
    obtain ⟨ux, _, rfl, rfl, hss'⟩ := List.map_eq_append_iff.mp hss
    obtain ⟨s, uy, rfl, rfl, rfl⟩ := List.map_eq_cons_iff.mp hss'
    rw [Token.kind_symbol] at hsign
    have hstops : Stops 0 (s :: (uy ++ rest)) := by
      rcases hsign with hsign | hsign <;>
        exact stops_of_kind 0 _ (by simp [hsign]) (by simp [hsign, Operator.signKinds])
    obtain ⟨x, rfl, hxnode⟩ := hx.complete.closed hstops
    obtain ⟨y, rfl, hynode⟩ := hy.complete.closed (stops_of_endsStatement hrest)
    refine ⟨.assign ⟨x.span.start, y.span.stop⟩ x s.value y, rfl, ?_⟩
    rw [List.append_assoc, List.cons_append]
    refine yields_statement_of_value hx hload (fun t ht => ?_) ?_
    · obtain rfl : s = t := by simpa using ht
      rcases hsign with hsign | hsign <;> simp [hsign]
    · exact yields_assignment.mpr ⟨x, _, hxnode, .inl ⟨s, uy ++ rest, rfl, hsign, y, hynode, rfl⟩⟩

/-! ### Files -/

/-- Separators in front of statements are passed over. -/
theorem statements_separators {seps : List Token} (ts : List Token)
    (h : ∀ s ∈ seps.map Token.symbol, Separates s) : statements (seps ++ ts) = statements ts := by
  induction seps with
  | nil => rfl
  | cons sep seps ih =>
    rw [List.map_cons, List.forall_mem_cons] at h
    have hsep : sep.kind = .newline ∨ sep.kind = .semicolon := h.1
    rw [List.cons_append, statements, if_pos hsep]
    exact ih h.2

/-- The first token of a statement is neither a separator nor the end. -/
theorem statements_statement_eq_ok_iff {used rest : List Token}
    (hinner : used ≠ [] ∧ ∀ s ∈ used.map Token.symbol, IsInner s)
    {r : List Node × Option Token} : statements (used ++ rest) = .ok r ↔
      ∃ x mid, Yields (statement (used ++ rest)) x mid ∧ (∀ u ∈ mid.head?, endsStatement u) ∧
        ∃ more, statements mid = .ok more ∧ (x :: more.1, more.2) = r := by
  obtain ⟨hsome, hinner⟩ := hinner
  cases used with
  | nil => exact absurd rfl hsome
  | cons t us =>
    have ht := hinner t.symbol List.mem_cons_self
    simp only [IsInner, Token.kind_symbol, List.mem_cons, List.not_mem_nil, or_false, not_or] at ht
    rw [List.cons_append, statements_cons_eq_ok_iff, if_neg (by simp [ht]), if_neg ht.2.2.2]

/-- A statement that is derived is the first of a file. -/
theorem statements_of_statement {used rest : List Token} {n : Node} {ns : List Node}
    {stop : Option Token} (h : StatementDerives (used.map Token.symbol) n)
    (hrest : ∀ t ∈ rest.head?, endsStatement t)
    (hmore : ∃ nodes, Node.bareAll nodes = ns ∧ statements rest = .ok (nodes, stop)) :
    ∃ nodes, Node.bareAll nodes = n :: ns ∧ statements (used ++ rest) = .ok (nodes, stop) := by
  obtain ⟨hsome, hinner⟩ := h.isInner
  obtain ⟨node, rfl, hnode⟩ := h.complete hrest
  obtain ⟨nodes, rfl, hnodes⟩ := hmore
  have hused : used ≠ [] := fun heq => hsome (by rw [heq]; rfl)
  refine ⟨node :: nodes, rfl, (statements_statement_eq_ok_iff ⟨hused, hinner⟩).mpr ?_⟩
  exact ⟨node, rest, hnode, hrest, (nodes, stop), hnodes, rfl⟩

theorem BlockDerives.complete {ss : List Symbol} {ns : List Node} (h : BlockDerives ss ns)
    {stop : Token} (hstop : stop.kind = .endOfFile) : ∀ used, used.map Token.symbol = ss →
      ∃ nodes, Node.bareAll nodes = ns ∧ statements (used ++ [stop]) = .ok (nodes, some stop) := by
  induction h with
  | none =>
    intro used hused
    obtain rfl := List.map_eq_nil_iff.mp hused
    refine ⟨[], rfl, ?_⟩
    rw [List.nil_append, statements_cons_eq_ok_iff, if_neg (by simp [hstop]), if_pos hstop]
  | last h =>
    rintro used rfl
    refine statements_of_statement h (by simp [endsStatement, hstop]) ⟨[], rfl, ?_⟩
    rw [statements_cons_eq_ok_iff, if_neg (by simp [hstop]), if_pos hstop]
  | more h hsome hseps _ ih =>
    intro used hused
    obtain ⟨us, _, rfl, rfl, hused'⟩ := List.map_eq_append_iff.mp hused
    obtain ⟨useps, um, rfl, rfl, rfl⟩ := List.map_eq_append_iff.mp hused'
    obtain ⟨nodes, rfl, hnodes⟩ := ih um rfl
    rw [List.append_assoc, List.append_assoc]
    refine statements_of_statement h ?_ ⟨nodes, rfl, ?_⟩
    · cases useps with
      | nil => exact absurd rfl hsome
      | cons sep useps =>
        have hsep := hseps sep.symbol List.mem_cons_self
        rcases hsep with hsep | hsep <;>
          · rw [Token.kind_symbol] at hsep
            simp [endsStatement, hsep]
    · rw [statements_separators _ hseps]
      exact hnodes

/-- **A file that is derived is read.** -/
theorem FileDerives.complete {ts : List Token} {ns : List Node}
    (h : FileDerives (ts.map Token.symbol) ns) :
    ∃ r, statements ts = .ok r ∧ Node.bareAll r.1 = ns := by
  generalize hss : ts.map Token.symbol = ss at h
  cases h with
  | mk hseps hblock hstop =>
    obtain ⟨useps, _, rfl, rfl, hss'⟩ := List.map_eq_append_iff.mp hss
    obtain ⟨us, _, rfl, rfl, hss''⟩ := List.map_eq_append_iff.mp hss'
    obtain ⟨stop, rfl, rfl⟩ := List.map_eq_singleton_iff.mp hss''
    rw [Token.kind_symbol] at hstop
    obtain ⟨nodes, rfl, hnodes⟩ := hblock.complete hstop us rfl
    refine ⟨(nodes, some stop), ?_, rfl⟩
    rw [statements_separators _ hseps]
    exact hnodes

end StarlarkLint.Grammar
