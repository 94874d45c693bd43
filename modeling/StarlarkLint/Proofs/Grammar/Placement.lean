import Mathlib.Data.List.Basic
import StarlarkLint.Proofs.Grammar.Derivation
import StarlarkLint.Proofs.Node.Values

/-!
# Where derived nodes stand

The grammar again, but over tokens with their places, and for trees with their spans.  Parentheses
leave no node behind and widen the span of the node inside them, so that the span of a node starts
with the first of its tokens and ends with the last; and every value in a tree has tokens of its
own among those of the tree.

## Main definitions

* `Grammar.Placed` — the derivations of nodes with their spans.
* `Grammar.StandsIn` — a node is derived from a stretch of tokens.

## Main results

* `Grammar.Placed.derives` — apart from places these are the derivations of the grammar.
* `Grammar.Placed.span_eq` — the span of a node.
* `Grammar.Placed.value_mem` — the values in a node are derived from stretches of its tokens.
-/

namespace StarlarkLint.Grammar

/-- The derivations of values and their parts, with places.  The members of a sequence are gathered
in a list node that has the span of the closing bracket. -/
inductive Placed : Category → List Token → Node → Prop
  /-- A value of the next strength. -/
  | tighter {k : Nat} {ts : List Token} {n : Node} (h : Placed (.value (k + 1)) ts n) :
      Placed (.value k) ts n
  /-- A binary operator between two values. -/
  | operation {k : Nat} {xs os ys : List Token} {x y : Node} {op : String}
      (hleft : Placed (.value k) xs x) (hspells : Spells (os.map Token.symbol) op)
      (hop : op ∈ operators k) (hright : Placed (.value (k + 1)) ys y) :
      Placed (.value k) (xs ++ (os ++ ys)) (.binary ⟨x.span.start, y.span.stop⟩ op x y)
  /-- The prefix `not`. -/
  | negation {t : Token} {ts : List Token} {n : Node} (ht : t.symbol = ⟨.keyword, "not"⟩)
      (h : Placed (.value 2) ts n) :
      Placed (.value 2) (t :: ts) (.unary ⟨t.span.start, n.span.stop⟩ "not" n)
  /-- A sign. -/
  | sign {t : Token} {ts : List Token} {n : Node} (hsign : t.kind = .minus ∨ t.kind = .plus)
      (h : Placed (.value 7) ts n) :
      Placed (.value 7) (t :: ts) (.unary ⟨t.span.start, n.span.stop⟩ t.value n)
  /-- A member of a value. -/
  | member {ts : List Token} {n : Node} {dot name : Token} (h : Placed (.value 8) ts n)
      (hdot : dot.kind = .dot) (hname : name.kind = .identifier) :
      Placed (.value 8) (ts ++ [dot, name]) (.member ⟨n.span.start, name.span.stop⟩ n name.value)
  /-- A call. -/
  | call {ts us : List Token} {n : Node} {args : List Node} {opening : Token} {closing : Span}
      (h : Placed (.value 8) ts n) (hopening : opening.kind = .lparen)
      (hargs : Placed (.members .arguments) us (.list closing args)) :
      Placed (.value 8) (ts ++ opening :: us) (.call ⟨n.span.start, closing.stop⟩ n args)
  /-- A name that is not reserved. -/
  | name {t : Token} (hkind : t.kind = .identifier) (hfree : t.value ∉ reservedWords) :
      Placed (.value 8) [t] (.ident t.span t.value)
  /-- One or more strings side by side, their contents joined. -/
  | string {t : Token} {ts : List Token} (hkind : t.kind = .string)
      (hkinds : ∀ u ∈ ts, u.kind = .string) : Placed (.value 8) (t :: ts) (joinStrings t ts)
  /-- A number. -/
  | number {t : Token} (hkind : t.kind = .number) :
      Placed (.value 8) [t] (.number t.span t.value)
  /-- A list. -/
  | list {opening : Token} {ts : List Token} {items : List Node} {closing : Span}
      (hopening : opening.kind = .lbracket)
      (h : Placed (.members .items) ts (.list closing items)) :
      Placed (.value 8) (opening :: ts) (.list ⟨opening.span.start, closing.stop⟩ items)
  /-- A dictionary. -/
  | dict {opening : Token} {ts : List Token} {entries : List Node} {closing : Span}
      (hopening : opening.kind = .lbrace)
      (h : Placed (.members .entries) ts (.list closing entries)) :
      Placed (.value 8) (opening :: ts) (.dict ⟨opening.span.start, closing.stop⟩ entries)
  /-- A value in parentheses, which widen its span. -/
  | parenthesised {opening closing : Token} {ts : List Token} {n : Node}
      (hopening : opening.kind = .lparen) (h : Placed (.value 0) ts n)
      (hclosing : closing.kind = .rparen) :
      Placed (.value 8) (opening :: (ts ++ [closing]))
        (n.withSpan ⟨opening.span.start, closing.span.stop⟩)
  /-- An argument that is passed by its place. -/
  | positional {ts : List Token} {n : Node} (h : Placed (.value 0) ts n) : Placed .argument ts n
  /-- An argument behind stars. -/
  | starred {star : Token} {ts : List Token} {n : Node}
      (hstar : star.kind = .star ∨ star.kind = .doubleStar) (h : Placed (.value 0) ts n) :
      Placed .argument (star :: ts) (.unary ⟨star.span.start, n.span.stop⟩ star.value n)
  /-- An argument that is passed by keyword. -/
  | keyword {name sign : Token} {ts : List Token} {n : Node} (hname : name.kind = .identifier)
      (hsign : sign.kind = .equals) (h : Placed (.value 0) ts n) :
      Placed .argument (name :: sign :: ts)
        (.assign ⟨name.span.start, n.span.stop⟩ (.ident name.span name.value) "=" n)
  /-- A key, a colon and a value. -/
  | entry {ks vs : List Token} {key value : Node} {colon : Token}
      (hkey : Placed (.value 0) ks key) (hcolon : colon.kind = .colon)
      (hvalue : Placed (.value 0) vs value) :
      Placed .entry (ks ++ colon :: vs) (.entry ⟨key.span.start, value.span.stop⟩ key value)
  /-- No members, or none behind a comma. -/
  | close {kind : Sequence} {closing : Token} (hclosing : closing.kind = kind.closer) :
      Placed (.members kind) [closing] (.list closing.span [])
  /-- A last member without a comma behind it. -/
  | last {kind : Sequence} {ts : List Token} {n : Node} {closing : Token}
      (h : Placed kind.member ts n) (hclosing : closing.kind = kind.closer) :
      Placed (.members kind) (ts ++ [closing]) (.list closing.span [n])
  /-- A member with a comma behind it. -/
  | more {kind : Sequence} {ts us : List Token} {n : Node} {ns : List Node} {comma : Token}
      {closing : Span} (h : Placed kind.member ts n) (hcomma : comma.kind = .comma)
      (hmore : Placed (.members kind) us (.list closing ns)) :
      Placed (.members kind) (ts ++ comma :: us) (.list closing (n :: ns))

namespace Placed

variable {c : Category} {ts : List Token} {n : Node}

/-- A value of one strength is a value of every looser one. -/
theorem loosen {j k : Nat} (h : Placed (.value k) ts n) (hjk : j ≤ k) : Placed (.value j) ts n := by
  induction hjk with
  | refl => exact h
  | step _ ih => exact ih h.tighter

/-- **Apart from places the derivations are those of the grammar.** -/
theorem derives (h : Placed c ts n) : Derives c (ts.map Token.symbol) n.bare := by
  induction h with
  | tighter _ ih => exact ih.tighter
  | operation _ hspells hop _ ihx ihy =>
    rw [List.map_append, List.map_append]
    exact .operation ihx hspells hop ihy
  | negation ht _ ih =>
    rw [List.map_cons, ht]
    exact .negation ih
  | sign hsign _ ih => exact .sign hsign ih
  | member _ hdot hname ih =>
    rw [List.map_append]
    exact .member ih hdot hname
  | call _ hopening _ ih ihargs =>
    rw [List.map_append]
    exact .call ih hopening ihargs
  | name hkind hfree => exact .name hkind hfree
  | @string t ts hkind hkinds =>
    have hall : ∀ s ∈ ts.map Token.symbol, s.kind = .string := by
      intro s hs
      obtain ⟨u, hu, rfl⟩ := List.mem_map.mp hs
      exact hkinds u hu
    simpa [joinStrings, Node.bare, Function.comp_def] using
      Derives.string (s := t.symbol) hkind hall
  | number hkind => exact .number hkind
  | list hopening _ ih => exact .list hopening ih
  | dict hopening _ ih => exact .dict hopening ih
  | parenthesised hopening _ hclosing ih =>
    rw [List.map_cons, List.map_append, Node.bare_withSpan]
    exact .parenthesised hopening ih hclosing
  | positional _ ih => exact .positional ih
  | starred hstar _ ih => exact .starred hstar ih
  | keyword hname hsign _ ih => exact .keyword hname hsign ih
  | entry _ hcolon _ ihkey ihvalue =>
    rw [List.map_append]
    exact .entry ihkey hcolon ihvalue
  | close hclosing => exact .close hclosing
  | last _ hclosing ih =>
    rw [List.map_append]
    exact .last ih hclosing
  | more _ hcomma _ ih ihmore =>
    rw [List.map_append]
    exact .more ih hcomma ihmore

theorem ne_nil (h : Placed c ts n) : ts ≠ [] := by
  obtain ⟨s, ss, hss, -⟩ := h.derives.head_ne_equals
  rintro rfl
  cases hss

/-! ### Spans -/

theorem ne_hole (h : Placed c ts n) : n ≠ .hole := by
  induction h with
  | tighter _ ih => exact ih
  | positional _ ih => exact ih
  | @parenthesised _ _ _ n _ _ _ ih =>
    cases n with
    | hole => exact absurd rfl ih
    | _ => exact Node.noConfusion
  | _ => exact Node.noConfusion

theorem span_withSpan {s : Span} (h : n ≠ .hole) : (n.withSpan s).span = s := by
  cases n with
  | hole => exact absurd rfl h
  | _ => rfl

/-- The span of a node ends with the last of its tokens. -/
theorem span_stop (h : Placed c ts n) : ∃ t ∈ ts.getLast?, n.span.stop = t.span.stop := by
  -- what stands in front of the last tokens makes no difference
  have behind : ∀ {us vs : List Token} {p : Position},
      (∃ t ∈ vs.getLast?, p = t.span.stop) → ∃ t ∈ (us ++ vs).getLast?, p = t.span.stop := by
    rintro us vs p ⟨t, ht, rfl⟩
    exact ⟨t, List.mem_getLast?_append_of_mem_getLast? ht, rfl⟩
  have behind_one : ∀ {u : Token} {vs : List Token} {p : Position},
      (∃ t ∈ vs.getLast?, p = t.span.stop) → ∃ t ∈ (u :: vs).getLast?, p = t.span.stop := by
    intro u vs p h
    exact @behind [u] vs p h
  induction h with
  | tighter _ ih => exact ih
  | positional _ ih => exact ih
  | operation _ _ _ _ _ ih => exact behind (behind ih)
  | negation _ _ ih => exact behind_one ih
  | sign _ _ ih => exact behind_one ih
  | member _ _ _ _ => exact behind ⟨_, rfl, rfl⟩
  | call _ _ _ _ ih => exact behind (behind_one ih)
  | name _ _ => exact ⟨_, rfl, rfl⟩
  | @string t ts _ _ =>
    refine ⟨ts.getLastD t, ?_, rfl⟩
    rw [List.getLast?_cons, List.getLastD_eq_getLast?]
    rfl
  | number _ => exact ⟨_, rfl, rfl⟩
  | list _ _ ih => exact behind_one ih
  | dict _ _ ih => exact behind_one ih
  | parenthesised _ h _ _ =>
    rw [span_withSpan h.ne_hole]
    exact behind_one (behind ⟨_, rfl, rfl⟩)
  | starred _ _ ih => exact behind_one ih
  | keyword _ _ _ ih => exact behind_one (behind_one ih)
  | entry _ _ _ _ ih => exact behind (behind_one ih)
  | close _ => exact ⟨_, rfl, rfl⟩
  | last _ _ _ => exact behind ⟨_, rfl, rfl⟩
  | more _ _ _ _ ih => exact behind (behind_one ih)

/-- The span of a value starts with the first of its tokens. -/
theorem span_start {k : Nat} (h : Placed (.value k) ts n) :
    ∃ t ∈ ts.head?, n.span.start = t.span.start := by
  -- what stands behind the first tokens makes no difference
  have before : ∀ {us vs : List Token} {p : Position},
      (∃ t ∈ us.head?, p = t.span.start) → ∃ t ∈ (us ++ vs).head?, p = t.span.start := by
    rintro us vs p ⟨t, ht, rfl⟩
    exact ⟨t, List.mem_head?_append_of_mem_head? ht, rfl⟩
  generalize hc : Category.value k = c at h
  induction h generalizing k with
  | tighter _ ih =>
    cases hc
    exact ih rfl
  | operation _ _ _ _ ih _ =>
    cases hc
    exact before (ih rfl)
  | negation _ _ _ => exact ⟨_, rfl, rfl⟩
  | sign _ _ _ => exact ⟨_, rfl, rfl⟩
  | member _ _ _ ih =>
    cases hc
    exact before (ih rfl)
  | call _ _ _ ih _ =>
    cases hc
    exact before (ih rfl)
  | name _ _ => exact ⟨_, rfl, rfl⟩
  | string _ _ => exact ⟨_, rfl, rfl⟩
  | number _ => exact ⟨_, rfl, rfl⟩
  | list _ _ _ => exact ⟨_, rfl, rfl⟩
  | dict _ _ _ => exact ⟨_, rfl, rfl⟩
  | parenthesised _ h _ _ =>
    rw [span_withSpan h.ne_hole]
    exact ⟨_, rfl, rfl⟩
  | _ => cases hc

/-! ### Values in values -/

/-- A value is no assignment, so that it holds the same values where it is a statement. -/
theorem statementValues_eq {k : Nat} (h : Placed (.value k) ts n) :
    n.statementValues = n.values := by
  generalize hc : Category.value k = c at h
  induction h generalizing k with
  | tighter _ ih =>
    cases hc
    exact ih rfl
  | string _ _ => rfl
  | @parenthesised _ _ _ n _ _ _ ih =>
    have hn : n.statementValues = n.values := ih rfl
    cases n with
    | assign => exact hn
    | _ => rfl
  | positional _ _ => cases hc
  | starred _ _ _ => cases hc
  | keyword _ _ _ _ => cases hc
  | entry _ _ _ _ _ => cases hc
  | close _ => cases hc
  | last _ _ _ => cases hc
  | more _ _ _ _ _ => cases hc
  | _ => rfl

end Placed

/-- The values that a derivation of the given kind is about: those in the members that it gathers,
or in the node itself. -/
def Category.values : Category → Node → List Node
  | .members _, .list _ ns => Node.valuesAll ns
  | _, n => n.values

/-- Stars are spelled as such. -/
def StarsSpelled (ts : List Token) : Prop :=
  ∀ t ∈ ts, t.kind = .star ∨ t.kind = .doubleStar → t.value ∈ ["*", "**"]

theorem StarsSpelled.mono {us ts : List Token} (h : StarsSpelled ts) (hsub : us <:+: ts) :
    StarsSpelled us :=
  fun t ht => h t (hsub.subset ht)

theorem StarsSpelled.tail {rest : List Token} (used : List Token)
    (h : StarsSpelled (used ++ rest)) : StarsSpelled rest :=
  h.mono (List.suffix_append used rest).isInfix

theorem Category.values_member (kind : Sequence) (n : Node) : kind.member.values n = n.values := by
  cases kind <;> rfl

/-- The node is derived from a stretch of the tokens, where it stands. -/
def StandsIn (ts : List Token) (n : Node) : Prop := ∃ us, us <:+: ts ∧ Placed (.value 0) us n

theorem StandsIn.mono {us ts : List Token} {n : Node} (h : StandsIn us n) (hsub : us <:+: ts) :
    StandsIn ts n := by
  obtain ⟨vs, hvs, hplaced⟩ := h
  exact ⟨vs, hvs.trans hsub, hplaced⟩

theorem Placed.standsIn {k : Nat} {ts : List Token} {n : Node} (h : Placed (.value k) ts n) :
    StandsIn ts n :=
  ⟨ts, List.infix_rfl, h.loosen (Nat.zero_le k)⟩

/-- What stands in a part stands in the whole. -/
theorem standsIn_of_part {us ts : List Token} {ns : List Node} (hsub : us <:+: ts)
    (hts : StarsSpelled ts) (h : StarsSpelled us → ∀ m ∈ ns, StandsIn us m) :
    ∀ m ∈ ns, StandsIn ts m := by
  intro m hm
  exact (h (hts.mono hsub) m hm).mono hsub

/-- **Every value in a node is derived from a stretch of the node's tokens.** -/
theorem Placed.value_mem {c : Category} {ts : List Token} {n : Node} (h : Placed c ts n)
    (hts : StarsSpelled ts) : ∀ m ∈ c.values n, StandsIn ts m := by
  induction h with
  | tighter _ ih => exact ih hts
  | positional _ ih => exact ih hts
  | @operation k xs os ys x y op hleft hspells hop hright ihx ihy =>
    intro m hm
    rcases List.mem_cons.mp hm with rfl | hm
    · exact Placed.standsIn (.operation hleft hspells hop hright)
    · rcases List.mem_append.mp hm with hm | hm
      · exact standsIn_of_part ⟨[], os ++ ys, rfl⟩ hts ihx m hm
      · exact standsIn_of_part ⟨xs ++ os, [], by simp⟩ hts ihy m hm
  | @negation t ts n ht h ih =>
    intro m hm
    rcases List.mem_cons.mp hm with rfl | hm
    · exact Placed.standsIn (.negation ht h)
    · exact standsIn_of_part (List.suffix_cons t ts).isInfix hts ih m hm
  | @sign t ts n hsign h ih =>
    intro m hm
    have hcases : m = .unary ⟨t.span.start, n.span.stop⟩ t.value n ∨ m ∈ n.values := by
      have hm : m ∈ Node.values (.unary ⟨t.span.start, n.span.stop⟩ t.value n) := hm
      rw [Node.values] at hm
      split at hm
      · exact .inr hm
      · exact List.mem_cons.mp hm
    rcases hcases with rfl | hm
    · exact Placed.standsIn (.sign hsign h)
    · exact standsIn_of_part (List.suffix_cons t ts).isInfix hts ih m hm
  | @member ts n dot name h hdot hname ih =>
    intro m hm
    rcases List.mem_cons.mp hm with rfl | hm
    · exact Placed.standsIn (.member h hdot hname)
    · exact standsIn_of_part (List.prefix_append ts _).isInfix hts ih m hm
  | @call ts us n args opening closing h hopening hargs ih ihargs =>
    intro m hm
    rcases List.mem_cons.mp hm with rfl | hm
    · exact Placed.standsIn (.call h hopening hargs)
    · rcases List.mem_append.mp hm with hm | hm
      · exact standsIn_of_part (List.prefix_append ts _).isInfix hts ih m hm
      · exact standsIn_of_part ⟨ts ++ [opening], [], by simp⟩ hts ihargs m hm
  | name hkind hfree =>
    intro m hm
    rw [List.mem_singleton.mp hm]
    exact Placed.standsIn (.name hkind hfree)
  | string hkind hkinds =>
    intro m hm
    rw [List.mem_singleton.mp hm]
    exact Placed.standsIn (.string hkind hkinds)
  | number hkind =>
    intro m hm
    rw [List.mem_singleton.mp hm]
    exact Placed.standsIn (.number hkind)
  | @list opening ts items closing hopening h ih =>
    intro m hm
    rcases List.mem_cons.mp hm with rfl | hm
    · exact Placed.standsIn (.list hopening h)
    · exact standsIn_of_part (List.suffix_cons opening ts).isInfix hts ih m hm
  | @dict opening ts entries closing hopening h ih =>
    intro m hm
    rcases List.mem_cons.mp hm with rfl | hm
    · exact Placed.standsIn (.dict hopening h)
    · exact standsIn_of_part (List.suffix_cons opening ts).isInfix hts ih m hm
  | @parenthesised opening closing ts n hopening h hclosing ih =>
    intro m hm
    rcases Node.mem_values_withSpan hm with rfl | hm
    · exact Placed.standsIn (.parenthesised hopening h hclosing)
    · exact standsIn_of_part ⟨[opening], [closing], rfl⟩ hts ih m hm
  | @starred star ts n hstar h ih =>
    intro m hm
    have hm : m ∈ Node.values (.unary ⟨star.span.start, n.span.stop⟩ star.value n) := hm
    rw [Node.values, if_pos (hts star List.mem_cons_self hstar)] at hm
    exact standsIn_of_part (List.suffix_cons star ts).isInfix hts ih m hm
  | @keyword name sign ts n hname hsign h ih =>
    intro m hm
    exact standsIn_of_part ⟨[name, sign], [], by simp⟩ hts ih m hm
  | @entry ks vs key value colon hkey hcolon hvalue ihkey ihvalue =>
    intro m hm
    rcases List.mem_append.mp hm with hm | hm
    · exact standsIn_of_part (List.prefix_append ks _).isInfix hts ihkey m hm
    · exact standsIn_of_part ⟨ks ++ [colon], [], by simp⟩ hts ihvalue m hm
  | close _ =>
    intro m hm
    exact absurd hm List.not_mem_nil
  | @last kind ts n closing h hclosing ih =>
    intro m hm
    rcases List.mem_append.mp hm with hm | hm
    · rw [← Category.values_member kind] at hm
      exact standsIn_of_part (List.prefix_append ts _).isInfix hts ih m hm
    · exact absurd hm List.not_mem_nil
  | @more kind ts us n ns comma closing h hcomma hmore ih ihmore =>
    intro m hm
    rcases List.mem_append.mp hm with hm | hm
    · rw [← Category.values_member kind] at hm
      exact standsIn_of_part (List.prefix_append ts _).isInfix hts ih m hm
    · exact standsIn_of_part ⟨ts ++ [comma], [], by simp⟩ hts ihmore m hm

end StarlarkLint.Grammar
