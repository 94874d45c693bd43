import Mathlib.Data.List.Perm.Basic
import StarlarkLint.Proofs.Grammar.Recognition
import StarlarkLint.Proofs.Node.Slots

/-!
# Arguments behind two stars

Two stars stand in front of an argument of a call or of a load, and nowhere else: they are no
operator, and no value starts with them.  So each of them in the tokens of a file belongs to one
argument, which reaches from the stars to the end of the value behind them, and that value ends in
front of a comma or a closing parenthesis.

## Main definitions

* `Node.kwarg?`, `Node.kwargs`, `Node.loadKwargs` — an argument behind two stars, those of the calls
  in a tree, and those of a load.
* `Grammar.KwargsIn` — the tokens hold arguments behind two stars with the given spans.

## Main results

* `Grammar.KwargsIn.perm_starts` — there are as many of them as there are stars, at the same places.
* `Grammar.KwargsIn.exists_operand` — each of them is a value behind two stars.
* `Grammar.Placed.kwargsIn`, `Grammar.FilePlaced.kwargsIn` — what is derived has the arguments that
  its tokens hold.
* `Grammar.Placed.exists_yields` — a value that is derived from the first tokens is read there.
* `Grammar.KwargsIn.exists_yields` — what stands behind two stars is read there.
-/

namespace StarlarkLint

namespace Node

/-! ### In trees -/

/-- The span of an argument behind two stars, if it is one. -/
def kwarg? : Node → Option Span
  | unary span op _ => if op = "**" then some span else none
  | _ => none

/-- The arguments behind two stars of a call. -/
def ownKwargs : Node → List Span
  | call _ _ args => args.filterMap kwarg?
  | _ => []

/-- The arguments behind two stars of the calls in a tree. -/
def kwargs (n : Node) : List Span := n.nodes.flatMap ownKwargs

/-- The arguments behind two stars of a load. -/
def loadKwargs : Node → List Span
  | load _ _ args => args.filterMap kwarg?
  | _ => []

variable {n : Node}

/-- Those of the call itself come first, and then those in its slots. -/
theorem kwargs_eq (n : Node) : n.kwargs = n.ownKwargs ++ n.slots.flatMap kwargs := by
  by_cases hn : n = hole
  · subst hn
    rfl
  · rw [kwargs, nodes_eq hn, List.flatMap_cons, List.flatMap_assoc]
    rfl

/-- What is no call has those in its slots. -/
theorem kwargs_of_slots (h : n.ownKwargs = []) : n.kwargs = n.slots.flatMap kwargs := by
  rw [kwargs_eq, h, List.nil_append]

theorem kwargs_withSpan (s : Span) (n : Node) : (n.withSpan s).kwargs = n.kwargs := by
  have hown : (n.withSpan s).ownKwargs = n.ownKwargs := by cases n <;> rfl
  rw [kwargs_eq, hown, slots_withSpan, ← kwargs_eq]

/-- The arguments of a call or a load are behind two stars, or hold calls with such arguments. -/
theorem perm_filterMap_kwarg? (args : List Node) :
    (args.flatMap fun n => n.kwarg?.toList ++ n.kwargs).Perm
      (args.filterMap kwarg? ++ args.flatMap kwargs) := by
  rw [List.filterMap_eq_flatMap_toList]
  exact (List.flatMap_append_perm args _ _).symm

end Node

namespace Grammar

/-! ### In tokens -/

/-- Among the tokens that may stand as a prefix, those of two stars are spelled as such. -/
def PrefixSpelled (t : Token) : Prop :=
  t.kind ∈ [TokenKind.minus, .plus, .star, .doubleStar] → (t.value = "**" ↔ t.kind = .doubleStar)

/-- What ends an argument is no star. -/
theorem ne_doubleStar_of_ends {next : Token} (h : next.kind = .comma ∨ next.kind = .rparen) :
    next.kind ≠ .doubleStar := by
  rcases h with h | h <;> simp [h]

/-- The tokens hold arguments behind two stars with the given spans, in any order. -/
inductive KwargsIn : List Token → List Span → Prop
  /-- There are no two stars. -/
  | none {ts : List Token} (h : ∀ t ∈ ts, t.kind ≠ .doubleStar) : KwargsIn ts []
  /-- Two stars, a value, and what ends the argument. -/
  | star {star next : Token} {ts : List Token} {n : Node} {ks : List Span}
      (hstar : star.kind = .doubleStar) (h : Placed (.value 0) ts n)
      (hnext : next.kind = .comma ∨ next.kind = .rparen) (hin : KwargsIn ts ks) :
      KwargsIn (star :: (ts ++ [next])) (⟨star.span.start, n.span.stop⟩ :: ks)
  /-- Tokens behind others. -/
  | append {ts us : List Token} {ks ls : List Span} (h : KwargsIn ts ks) (h' : KwargsIn us ls) :
      KwargsIn (ts ++ us) (ks ++ ls)
  /-- The order of the spans makes no difference. -/
  | perm {ts : List Token} {ks ls : List Span} (h : KwargsIn ts ks) (hperm : ks.Perm ls) :
      KwargsIn ts ls

namespace KwargsIn

variable {ts us : List Token} {ks : List Span}

/-- Other tokens in front make no difference. -/
theorem before (h : KwargsIn ts ks) (hus : ∀ t ∈ us, t.kind ≠ .doubleStar) :
    KwargsIn (us ++ ts) ks :=
  (KwargsIn.none hus).append h

theorem cons {t : Token} (h : KwargsIn ts ks) (ht : t.kind ≠ .doubleStar) :
    KwargsIn (t :: ts) ks := by
  show KwargsIn ([t] ++ ts) ks
  exact h.before (List.forall_mem_singleton.mpr ht)

/-- Other tokens behind make no difference. -/
theorem behind (h : KwargsIn ts ks) (hus : ∀ t ∈ us, t.kind ≠ .doubleStar) :
    KwargsIn (ts ++ us) ks := by
  have happend := h.append (.none hus)
  rwa [List.append_nil] at happend

theorem concat {t : Token} (h : KwargsIn ts ks) (ht : t.kind ≠ .doubleStar) :
    KwargsIn (ts ++ [t]) ks :=
  h.behind (List.forall_mem_singleton.mpr ht)

/-- A node with one slot that is no call has what stands in the slot. -/
theorem of_slot {m n : Node} (hown : m.ownKwargs = []) (hslots : m.slots = [n])
    (h : KwargsIn ts n.kwargs) : KwargsIn ts m.kwargs := by
  rw [Node.kwargs_of_slots hown, hslots, List.flatMap_singleton]
  exact h

/-- A node with two slots that is no call has what stands in the slots. -/
theorem of_slots {m x y : Node} (hown : m.ownKwargs = []) (hslots : m.slots = [x, y])
    (hx : KwargsIn ts x.kwargs) (hy : KwargsIn us y.kwargs) : KwargsIn (ts ++ us) m.kwargs := by
  rw [Node.kwargs_of_slots hown, hslots, List.flatMap_cons, List.flatMap_singleton]
  exact hx.append hy

/-- **The arguments stand where the stars stand**, one for each of them. -/
theorem perm_starts (h : KwargsIn ts ks) : (ks.map Span.start).Perm
    ((ts.filter (·.kind = .doubleStar)).map (·.span.start)) := by
  induction h with
  | @none ts h =>
    have hnone : ts.filter (·.kind = .doubleStar) = [] := by simpa using h
    rw [hnone]
    exact .nil
  | @star star next ts n ks hstar h hnext hin ih =>
    have hother := ne_doubleStar_of_ends hnext
    have hstars : (star :: (ts ++ [next])).filter (·.kind = .doubleStar) =
        star :: ts.filter (·.kind = .doubleStar) := by
      simp [hstar, hother]
    rw [hstars]
    exact ih.cons star.span.start
  | append _ _ ih ih' =>
    rw [List.map_append, List.filter_append, List.map_append]
    exact ih.append ih'
  | perm _ hperm ih => exact (hperm.map Span.start).symm.trans ih

/-- **Each argument is a value behind two stars**, and ends in front of a comma or a closing
parenthesis. -/
theorem exists_operand (h : KwargsIn ts ks) : ∀ s ∈ ks, ∃ front star us n next rest,
    ts = front ++ star :: (us ++ next :: rest) ∧ star.kind = .doubleStar ∧
      Placed (.value 0) us n ∧ (next.kind = .comma ∨ next.kind = .rparen) ∧
      s = ⟨star.span.start, n.span.stop⟩ := by
  induction h with
  | none _ => exact List.forall_mem_nil _
  | @star star next ts n ks hstar h hnext _ ih =>
    refine List.forall_mem_cons.mpr ⟨⟨[], star, ts, n, next, [], rfl, hstar, h, hnext, rfl⟩, ?_⟩
    intro s hs
    obtain ⟨front, star', us, m, next', rest, rfl, hs⟩ := ih s hs
    exact ⟨star :: front, star', us, m, next', rest ++ [next], by simp, hs⟩
  | @append ts us' ks ls _ _ ih ih' =>
    intro s hs
    rcases List.mem_append.mp hs with hs | hs
    · obtain ⟨front, star, us, n, next, rest, rfl, hs⟩ := ih s hs
      exact ⟨front, star, us, n, next, rest ++ us', by simp, hs⟩
    · obtain ⟨front, star, us, n, next, rest, rfl, hs⟩ := ih' s hs
      exact ⟨ts ++ front, star, us, n, next, rest, by simp, hs⟩
  | perm _ hperm ih =>
    intro s hs
    exact ih s (hperm.mem_iff.mpr hs)

end KwargsIn

/-! ### In what is derived -/

/-- The arguments behind two stars that a member of a sequence brings along. -/
def Sequence.kwargs : Sequence → Node → List Span
  | .arguments, n => n.kwarg?.toList ++ n.kwargs
  | _, n => n.kwargs

/-- What is derived has the arguments behind two stars that its tokens hold.  An argument may be one
itself, which shows with what ends it. -/
def Category.HasKwargs : Category → List Token → Node → Prop
  | .argument, ts, n => ∀ next : Token, next.kind = .comma ∨ next.kind = .rparen →
      KwargsIn (ts ++ [next]) (n.kwarg?.toList ++ n.kwargs)
  | .members kind, ts, .list _ ns => KwargsIn ts (ns.flatMap (Sequence.kwargs kind))
  | _, ts, n => KwargsIn ts n.kwargs

/-- Two stars spell no operator. -/
theorem Spells.kind_ne_doubleStar {ss : List Symbol} {op : String} (h : Spells ss op) :
    ∀ s ∈ ss, s.kind ≠ .doubleStar := by
  cases h with
  | @sign s hsign =>
    have hkinds : ∀ s ∈ signs, s.kind ≠ .doubleStar := by decide
    exact List.forall_mem_singleton.mpr (hkinds s hsign)
  | word hkind _ => exact List.forall_mem_singleton.mpr (by simp [hkind])
  | notIn => simp

theorem Sequence.closer_ne_doubleStar (kind : Sequence) : kind.closer ≠ .doubleStar := by
  cases kind <;> decide

/-- No value is an argument behind two stars, or a load. -/
theorem Placed.value_plain {k : Nat} {ts : List Token} {n : Node} (h : Placed (.value k) ts n)
    (hts : ∀ t ∈ ts, PrefixSpelled t) : n.kwarg? = none ∧ n.loadKwargs = [] := by
  generalize hc : Category.value k = c at h
  induction h generalizing k with
  | tighter _ ih =>
    cases hc
    exact ih hts rfl
  | @sign t ts n hsign _ _ =>
    have hspelled := hts t List.mem_cons_self (by rcases hsign with h | h <;> simp [h])
    have hvalue : t.value ≠ "**" := by
      intro heq
      rcases hsign with h | h <;> simp [h, heq] at hspelled
    exact ⟨if_neg hvalue, rfl⟩
  | @parenthesised opening closing ts n _ _ _ ih =>
    have hinner : ∀ t ∈ ts, PrefixSpelled t := fun t ht => hts t (by simp [ht])
    obtain ⟨hkwarg, hload⟩ := ih hinner rfl
    constructor
    · cases n with
      | unary span op operand => exact if_neg (by simpa [Node.kwarg?] using hkwarg)
      | _ => rfl
    · cases n with
      | load => exact hload
      | _ => rfl
  | positional _ _ => cases hc
  | starred _ _ _ => cases hc
  | keyword _ _ _ _ => cases hc
  | entry _ _ _ _ _ => cases hc
  | close _ => cases hc
  | last _ _ _ => cases hc
  | more _ _ _ _ _ => cases hc
  | _ => exact ⟨rfl, rfl⟩

/-- A member of a sequence with the token that ends it. -/
theorem Category.HasKwargs.concat {kind : Sequence} {ts : List Token} {n : Node} {next : Token}
    (h : kind.member.HasKwargs ts n) (hnext : next.kind = .comma ∨ next.kind = kind.closer) :
    KwargsIn (ts ++ [next]) (Sequence.kwargs kind n) := by
  have hother : next.kind ≠ .doubleStar := by
    rcases hnext with hnext | hnext
    · simp [hnext]
    · rw [hnext]
      exact Sequence.closer_ne_doubleStar kind
  cases kind with
  | arguments => exact h next hnext
  | items => exact KwargsIn.concat h hother
  | entries => exact KwargsIn.concat h hother

/-- **What is derived has the arguments behind two stars that its tokens hold.** -/
theorem Placed.kwargsIn {c : Category} {ts : List Token} {n : Node} (h : Placed c ts n)
    (hts : ∀ t ∈ ts, PrefixSpelled t) : c.HasKwargs ts n := by
  induction h with
  | tighter _ ih => exact ih hts
  | @operation k xs os ys x y op _ hspells _ _ ihx ihy =>
    simp only [List.forall_mem_append] at hts
    have hos : ∀ o ∈ os, o.kind ≠ .doubleStar := by
      intro o ho
      exact hspells.kind_ne_doubleStar o.symbol (List.mem_map_of_mem ho)
    have hright : KwargsIn ys y.kwargs := ihy hts.2.2
    exact KwargsIn.of_slots rfl rfl (ihx hts.1) (hright.before hos)
  | @negation t ts n ht _ ih =>
    rw [List.forall_mem_cons] at hts
    have hother : t.kind ≠ .doubleStar := by
      rw [← Token.kind_symbol, ht]
      decide
    exact KwargsIn.of_slot rfl rfl (KwargsIn.cons (ih hts.2) hother)
  | @sign t ts n hsign _ ih =>
    rw [List.forall_mem_cons] at hts
    have hother : t.kind ≠ .doubleStar := by
      rcases hsign with h | h <;> simp [h]
    exact KwargsIn.of_slot rfl rfl (KwargsIn.cons (ih hts.2) hother)
  | @member ts n dot name _ hdot hname ih =>
    rw [List.forall_mem_append] at hts
    have hother : ∀ u ∈ [dot, name], u.kind ≠ .doubleStar := by simp [hdot, hname]
    exact KwargsIn.of_slot rfl rfl (KwargsIn.behind (ih hts.1) hother)
  | @call ts us n args opening closing _ hopening _ ih ihargs =>
    rw [List.forall_mem_append, List.forall_mem_cons] at hts
    have hargs : KwargsIn us (args.flatMap (Sequence.kwargs .arguments)) := ihargs hts.2.2
    have hall : KwargsIn (ts ++ opening :: us) (n.kwargs ++ _) :=
      KwargsIn.append (ih hts.1) (hargs.cons (by simp [hopening]))
    -- the arguments of the call itself come before those in its callee
    have hcall : Node.kwargs (.call ⟨n.span.start, closing.stop⟩ n args) =
        args.filterMap Node.kwarg? ++ (n.kwargs ++ args.flatMap Node.kwargs) := Node.kwargs_eq _
    show KwargsIn _ (Node.kwargs _)
    rw [hcall]
    refine hall.perm (.trans ?_ (List.perm_append_comm_assoc _ _ _))
    exact (Node.perm_filterMap_kwarg? args).append_left n.kwargs
  | name hkind _ => exact .none (by simp [hkind])
  | @string t ts hkind hkinds =>
    exact .none (List.forall_mem_cons.mpr ⟨by simp [hkind], fun u hu => by simp [hkinds u hu]⟩)
  | number hkind => exact .none (by simp [hkind])
  | @list opening ts items closing hopening _ ih =>
    rw [List.forall_mem_cons] at hts
    show KwargsIn _ (Node.kwargs _)
    rw [Node.kwargs_of_slots rfl]
    exact KwargsIn.cons (ih hts.2) (by simp [hopening])
  | @dict opening ts entries closing hopening _ ih =>
    rw [List.forall_mem_cons] at hts
    show KwargsIn _ (Node.kwargs _)
    rw [Node.kwargs_of_slots rfl]
    exact KwargsIn.cons (ih hts.2) (by simp [hopening])
  | @parenthesised opening closing ts n hopening _ hclosing ih =>
    rw [List.forall_mem_cons, List.forall_mem_append] at hts
    have hinner : KwargsIn (ts ++ [closing]) n.kwargs :=
      KwargsIn.concat (ih hts.2.1) (by simp [hclosing])
    show KwargsIn _ (Node.kwargs _)
    rw [Node.kwargs_withSpan]
    exact hinner.cons (by simp [hopening])
  | positional h ih =>
    intro next hnext
    rw [(h.value_plain hts).1]
    exact KwargsIn.concat (ih hts) (ne_doubleStar_of_ends hnext)
  | @starred star ts n hstar h ih =>
    intro next hnext
    rw [List.forall_mem_cons] at hts
    have hin : KwargsIn ts n.kwargs := ih hts.2
    have hspelled := hts.1 (by rcases hstar with h | h <;> simp [h])
    by_cases hkind : star.kind = .doubleStar
    · have hkwarg : Node.kwarg? (.unary ⟨star.span.start, n.span.stop⟩ star.value n) =
          some ⟨star.span.start, n.span.stop⟩ := if_pos (hspelled.mpr hkind)
      rw [hkwarg, Node.kwargs_of_slots rfl, Node.slots, List.flatMap_singleton]
      exact .star hkind h hnext hin
    · have hkwarg : Node.kwarg? (.unary ⟨star.span.start, n.span.stop⟩ star.value n) = none :=
        if_neg fun heq => hkind (hspelled.mp heq)
      rw [hkwarg]
      exact KwargsIn.of_slot rfl rfl ((hin.concat (ne_doubleStar_of_ends hnext)).cons hkind)
  | @keyword name sign ts n hname hsign _ ih =>
    intro next hnext
    rw [List.forall_mem_cons, List.forall_mem_cons] at hts
    have hin : KwargsIn (ts ++ [next]) n.kwargs :=
      KwargsIn.concat (ih hts.2.2) (ne_doubleStar_of_ends hnext)
    have htarget : KwargsIn [name, sign] (Node.kwargs (.ident name.span name.value)) :=
      .none (by simp [hname, hsign])
    show KwargsIn ([name, sign] ++ (ts ++ [next])) (Node.kwargs _)
    exact KwargsIn.of_slots rfl rfl htarget hin
  | @entry ks vs key value colon _ hcolon _ ihkey ihvalue =>
    rw [List.forall_mem_append, List.forall_mem_cons] at hts
    have hvalue : KwargsIn vs value.kwargs := ihvalue hts.2.2
    exact KwargsIn.of_slots rfl rfl (ihkey hts.1) (hvalue.cons (by simp [hcolon]))
  | @close kind closing hclosing =>
    have hother : closing.kind ≠ .doubleStar := hclosing ▸ Sequence.closer_ne_doubleStar kind
    exact .none (List.forall_mem_singleton.mpr hother)
  | @last kind ts n closing _ hclosing ih =>
    rw [List.forall_mem_append] at hts
    have hone := (ih hts.1).concat (.inr hclosing)
    show KwargsIn _ (List.flatMap _ [n])
    rw [List.flatMap_singleton]
    exact hone
  | @more kind ts us n ns comma closing _ hcomma _ ih ihmore =>
    rw [List.forall_mem_append, List.forall_mem_cons] at hts
    have hmore : KwargsIn us (ns.flatMap (Sequence.kwargs kind)) := ihmore hts.2.2
    have hone := (ih hts.1).concat (.inl hcomma)
    show KwargsIn _ (List.flatMap _ (n :: ns))
    rw [List.flatMap_cons, List.append_cons]
    exact hone.append hmore

/-- The arguments of a load, behind the token that ends its module. -/
theorem LoadPlaced.kwargsIn {ts : List Token} {closing : Span} {ns : List Node}
    (h : LoadPlaced ts closing ns) (hts : ∀ t ∈ ts, PrefixSpelled t) :
    ∃ next rest, ts = next :: rest ∧ (next.kind = .comma ∨ next.kind = .rparen) ∧
      KwargsIn rest (ns.flatMap (Sequence.kwargs .arguments)) := by
  induction h with
  | close hclosing => exact ⟨_, [], rfl, .inr hclosing, .none (List.forall_mem_nil _)⟩
  | closeBehindComma hcomma hclosing =>
    exact ⟨_, [_], rfl, .inl hcomma, .none (by simp [hclosing])⟩
  | @more comma ts us n ns closing hcomma h _ ih =>
    rw [List.forall_mem_cons, List.forall_mem_append] at hts
    obtain ⟨next, rest, rfl, hnext, hrest⟩ := ih hts.2.2
    have hone := h.kwargsIn hts.2.1 next hnext
    refine ⟨comma, ts ++ next :: rest, rfl, .inl hcomma, ?_⟩
    rw [List.flatMap_cons, List.append_cons]
    exact hone.append hrest

theorem StatementPlaced.kwargsIn {ts : List Token} {n : Node} (h : StatementPlaced ts n)
    (hts : ∀ t ∈ ts, PrefixSpelled t) : KwargsIn ts (n.loadKwargs ++ n.kwargs) := by
  cases h with
  | @load name opening module ts args closing hname hopening hmodule hargs =>
    simp only [List.forall_mem_cons] at hts
    obtain ⟨next, rest, rfl, hnext, hin⟩ := hargs.kwargsIn hts.2.2.2
    have hother : ∀ u ∈ [name, opening, module], u.kind ≠ .doubleStar := by
      simp [hname, hopening, hmodule]
    have hmodule : Node.kwargs (.string module.span module.value) = [] := rfl
    refine ((hin.cons (ne_doubleStar_of_ends hnext)).before hother).perm ?_
    rw [Node.kwargs_of_slots rfl, Node.slots, List.flatMap_cons, hmodule, List.nil_append]
    exact Node.perm_filterMap_kwarg? args
  | value h _ =>
    rw [(h.value_plain hts).2]
    exact h.kwargsIn hts
  | @assign xs ys x y sign hx hsign hy _ =>
    rw [List.forall_mem_append, List.forall_mem_cons] at hts
    have hother : sign.kind ≠ .doubleStar := by
      rcases hsign with h | h <;> simp [h]
    have hvalue : KwargsIn ys y.kwargs := hy.kwargsIn hts.2.2
    exact KwargsIn.of_slots rfl rfl (hx.kwargsIn hts.1) (hvalue.cons hother)

/-- **A file has the arguments behind two stars that its tokens hold.** -/
theorem FilePlaced.kwargsIn {ts : List Token} {ns : List Node} (h : FilePlaced ts ns)
    (hts : ∀ t ∈ ts, PrefixSpelled t) :
    KwargsIn ts (ns.flatMap Node.loadKwargs ++ ns.flatMap Node.kwargs) := by
  refine KwargsIn.perm ?_ (List.flatMap_append_perm ns _ _).symm
  induction h with
  | stop hstop => exact .none (by simp [hstop])
  | @separator t ts ns hsep _ ih =>
    rw [List.forall_mem_cons] at hts
    have hother : t.kind ≠ .doubleStar := by
      rcases hsep with hsep | hsep <;> rw [Token.kind_symbol] at hsep <;> simp [hsep]
    exact (ih hts.2).cons hother
  | statement h _ _ ih =>
    rw [List.forall_mem_append] at hts
    rw [List.flatMap_cons]
    exact (h.kwargsIn hts.1).append (ih hts.2)

/-! ### In what is read -/

/-- The tokens of a text spell two stars as such. -/
theorem prefixSpelled_of_tokensOf {source : String} {ts : List Token} (h : TokensOf source ts) :
    ∀ t ∈ ts, PrefixSpelled t := by
  intro t ht hkind
  have hkinds : ∀ kind ∈ [TokenKind.minus, .plus, .star, .doubleStar], kind ≠ .endOfFile ∧
      kind ∉ [TokenKind.identifier, .keyword, .number, .string, .comment, .newline] := by decide
  have hsigns : ∀ p ∈ Lexeme.signTexts, p.1 ∈ [TokenKind.minus, .plus, .star, .doubleStar] →
      (p.2 = "**" ↔ p.1 = .doubleStar) := by decide
  obtain ⟨hend, hother⟩ := hkinds t.kind hkind
  have hgenuine := genuine_of_tokensOf h t.symbol (List.mem_map_of_mem ht) hend
  exact hsigns _ (Lexeme.mem_signTexts_of_genuine hgenuine hother) hkind

/-- A value that is derived from the first tokens is read there, and ends with the last of them. -/
theorem Placed.exists_yields {us rest : List Token} {n : Node} (h : Placed (.value 0) us n)
    (hts : SignsSpelled (us ++ rest)) (hstops : Stops 0 rest) :
    ∃ node : Node, Yields (expression 0 (us ++ rest)) node rest ∧ n.span.stop = node.span.stop := by
  obtain ⟨node, -, hyields⟩ := h.derives.complete.closed hstops
  obtain ⟨used, heq, hp⟩ := expression_located 0 (us ++ rest) hts hyields
  obtain rfl : us = used := List.append_cancel_right heq
  obtain ⟨t, ht, hstop⟩ := h.span_stop
  obtain ⟨u, hu, hstop'⟩ := hp.span_stop
  obtain rfl : t = u := Option.mem_unique ht hu
  exact ⟨node, hyields, hstop.trans hstop'.symm⟩

/-- Each argument behind two stars is read from behind them on, and ends with what is read. -/
theorem KwargsIn.exists_yields {ts : List Token} {ks : List Span} (h : KwargsIn ts ks)
    (hts : SignsSpelled ts) : ∀ s ∈ ks, ∃ front star rest n behind, ts = front ++ star :: rest ∧
      star.kind = .doubleStar ∧ s.start = star.span.start ∧ Yields (expression 0 rest) n behind ∧
      s.stop = n.span.stop := by
  intro s hs
  obtain ⟨front, star, us, n, next, behind, rfl, hstar, hp, hnext, rfl⟩ := h.exists_operand s hs
  have hstops : Stops 0 (next :: behind) := by
    apply stops_of_kind
    · rcases hnext with hnext | hnext <;> simp [hnext]
    · rcases hnext with hnext | hnext <;> simp [hnext, Operator.signKinds]
  have hspelled := (hts.tail front).tail [star]
  obtain ⟨node, hyields, hstop⟩ := hp.exists_yields hspelled hstops
  exact ⟨front, star, _, node, _, rfl, hstar, rfl, hyields, hstop⟩

end Grammar

end StarlarkLint
