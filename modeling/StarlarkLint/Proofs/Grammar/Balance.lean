import StarlarkLint.Proofs.Grammar.Derivation

/-!
# Balanced brackets

The brackets among the symbols of a value close one another.  So as many brackets are open behind a
value as in front of it, and on the way it never closes one that was open before: a line feed inside
the value stays inside brackets if the value as a whole stands in some.

## Main definitions

* `Balanced` — symbols whose brackets close one another.
* `StaysOpen` — some bracket is open in front of, among and behind the symbols.
* `depthAfterAll` — the number of brackets that are open behind symbols.

## Main results

* `Grammar.Derives.balanced`, `Grammar.FileDerives.balanced` — the symbols of values and files are
  balanced.
* `Balanced.staysOpen` — balanced symbols close no bracket in front of them.
* `Balanced.depthAfterAll_eq` — behind them as many brackets are open as in front of them.
-/

namespace StarlarkLint

namespace TokenKind

/-- The opening brackets. -/
def openers : List TokenKind := [lparen, lbracket, lbrace]

/-- The closing brackets. -/
def closers : List TokenKind := [rparen, rbracket, rbrace]

/-- Whether a token of this kind is a bracket. -/
def isBracket (kind : TokenKind) : Bool := kind ∈ openers ++ closers

theorem depthAfter_of_isBracket_eq_false {kind : TokenKind} (h : kind.isBracket = false)
    (depth : Nat) : kind.depthAfter depth = depth := by
  cases kind <;> first | rfl | exact absurd h (by decide)

theorem depthAfter_of_mem_openers {kind : TokenKind} (h : kind ∈ openers) (depth : Nat) :
    kind.depthAfter depth = depth + 1 := by
  cases kind <;> first | rfl | exact absurd h (by decide)

theorem depthAfter_of_mem_closers {kind : TokenKind} (h : kind ∈ closers) (depth : Nat) :
    kind.depthAfter depth = depth - 1 := by
  cases kind <;> first | rfl | exact absurd h (by decide)

end TokenKind

open TokenKind

/-- Symbols whose brackets close one another, of whatever kind they are. -/
inductive Balanced : List Symbol → Prop
  /-- No symbols. -/
  | nil : Balanced []
  /-- A symbol that is no bracket. -/
  | level {s : Symbol} {ss : List Symbol} (hs : s.kind.isBracket = false) (h : Balanced ss) :
      Balanced (s :: ss)
  /-- Two brackets around symbols, and what follows them. -/
  | brackets {opening closing : Symbol} {ss ts : List Symbol} (hopening : opening.kind ∈ openers)
      (hclosing : closing.kind ∈ closers) (h : Balanced ss) (h' : Balanced ts) :
      Balanced (opening :: (ss ++ closing :: ts))

/-- At least one bracket is open in front of the symbols, among them, and behind them. -/
def StaysOpen : Nat → List Symbol → Prop
  | depth, [] => 0 < depth
  | depth, s :: ss => 0 < depth ∧ StaysOpen (s.kind.depthAfter depth) ss

theorem StaysOpen.pos {depth : Nat} {ss : List Symbol} (h : StaysOpen depth ss) : 0 < depth := by
  cases ss with
  | nil => exact h
  | cons s ss => exact h.1

/-- The number of brackets that are open behind symbols. -/
def depthAfterAll (depth : Nat) (ss : List Symbol) : Nat :=
  ss.foldl (fun depth s => s.kind.depthAfter depth) depth

@[simp] theorem depthAfterAll_nil (depth : Nat) : depthAfterAll depth [] = depth := rfl

@[simp] theorem depthAfterAll_cons (depth : Nat) (s : Symbol) (ss : List Symbol) :
    depthAfterAll depth (s :: ss) = depthAfterAll (s.kind.depthAfter depth) ss := rfl

theorem depthAfterAll_append (depth : Nat) (ss ts : List Symbol) :
    depthAfterAll depth (ss ++ ts) = depthAfterAll (depthAfterAll depth ss) ts :=
  List.foldl_append

namespace Balanced

variable {ss ts : List Symbol}

theorem append (h : Balanced ss) (h' : Balanced ts) : Balanced (ss ++ ts) := by
  induction h with
  | nil => exact h'
  | level hs _ ih => exact .level hs ih
  | @brackets opening closing ss us hopening hclosing h _ _ ih =>
    rw [List.cons_append, List.append_assoc, List.cons_append]
    exact .brackets hopening hclosing h ih

theorem level_of_kind {s : Symbol} {kind : TokenKind} (hs : s.kind = kind)
    (hkind : kind.isBracket = false) (h : Balanced ss) : Balanced (s :: ss) :=
  .level (hs ▸ hkind) h

theorem of_forall (h : ∀ s ∈ ss, s.kind.isBracket = false) : Balanced ss := by
  induction ss with
  | nil => exact .nil
  | cons s ss ih =>
    rw [List.forall_mem_cons] at h
    exact .level h.1 (ih h.2)

/-- **Balanced symbols close no bracket that is open in front of them.** -/
theorem staysOpen (h : Balanced ss) {depth : Nat} (hdepth : 0 < depth)
    (hts : StaysOpen depth ts) : StaysOpen depth (ss ++ ts) := by
  induction h generalizing depth ts with
  | nil => exact hts
  | @level s ss hs _ ih =>
    refine ⟨hdepth, ?_⟩
    rw [depthAfter_of_isBracket_eq_false hs]
    exact ih hdepth hts
  | @brackets opening closing ss us hopening hclosing _ _ ih ih' =>
    have hbehind : StaysOpen (depth + 1) (closing :: (us ++ ts)) := by
      refine ⟨Nat.succ_pos depth, ?_⟩
      rw [depthAfter_of_mem_closers hclosing, Nat.add_sub_cancel]
      exact ih' hdepth hts
    rw [List.cons_append, List.append_assoc, List.cons_append]
    refine ⟨hdepth, ?_⟩
    rw [depthAfter_of_mem_openers hopening]
    exact ih (Nat.succ_pos depth) hbehind

/-- **As many brackets are open behind balanced symbols as in front of them.** -/
theorem depthAfterAll_eq (h : Balanced ss) (depth : Nat) : depthAfterAll depth ss = depth := by
  induction h generalizing depth with
  | nil => rfl
  | @level s ss hs _ ih =>
    show depthAfterAll (s.kind.depthAfter depth) ss = depth
    rw [depthAfter_of_isBracket_eq_false hs, ih]
  | @brackets opening closing ss us hopening hclosing _ _ ih ih' =>
    show depthAfterAll (opening.kind.depthAfter depth) (ss ++ closing :: us) = depth
    rw [depthAfterAll_append, ih, depthAfterAll_cons, depthAfter_of_mem_openers hopening,
      depthAfter_of_mem_closers hclosing, Nat.add_sub_cancel, ih']

end Balanced

namespace Grammar

/-- What the symbols of a derivation of the given kind look like: they are balanced, but for the
bracket that closes a sequence. -/
def Category.Balanced : Category → List Symbol → Prop
  | .members _, ss => ∃ body closing, ss = body ++ [closing] ∧ closing.kind ∈ closers ∧
      StarlarkLint.Balanced body
  | _, ss => StarlarkLint.Balanced ss

theorem Category.balanced_member {kind : Sequence} {ss : List Symbol} :
    kind.member.Balanced ss ↔ StarlarkLint.Balanced ss := by
  cases kind <;> exact Iff.rfl

theorem Sequence.closer_mem_closers (kind : Sequence) : kind.closer ∈ closers := by
  cases kind <;> decide

/-- A sequence and the bracket in front of it. -/
theorem Category.Balanced.enclosed {kind : Sequence} {opening : Symbol} {ss : List Symbol}
    (h : (Category.members kind).Balanced ss) (hopening : opening.kind ∈ openers) :
    StarlarkLint.Balanced (opening :: ss) := by
  obtain ⟨body, closing, rfl, hclosing, hbody⟩ := h
  exact .brackets hopening hclosing hbody .nil

theorem Spells.balanced {os : List Symbol} {op : String} (h : Spells os op) :
    StarlarkLint.Balanced os := by
  cases h with
  | @sign s hsign =>
    have hall : ∀ s ∈ signs, s.kind.isBracket = false := by decide
    exact .level (hall s hsign) .nil
  | word hkind _ => exact .level (by rw [hkind]; rfl) .nil
  | notIn => exact .level rfl (.level rfl .nil)

/-- **The symbols of a derivation are balanced.** -/
theorem Derives.balanced {c : Category} {ss : List Symbol} {n : Node} (h : Derives c ss n) :
    c.Balanced ss := by
  induction h with
  | tighter _ ih => exact ih
  | positional _ ih => exact ih
  | operation _ hspells _ _ ihx ihy => exact ihx.append (hspells.balanced.append ihy)
  | negation _ ih => exact .level rfl ih
  | sign hsign _ ih =>
    rcases hsign with hsign | hsign
    · exact .level_of_kind hsign rfl ih
    · exact .level_of_kind hsign rfl ih
  | member _ hdot hname ih =>
    exact ih.append (.level_of_kind hdot rfl (.level_of_kind hname rfl .nil))
  | call _ hopening _ ih ihargs => exact ih.append (ihargs.enclosed (by rw [hopening]; decide))
  | name hkind _ => exact .level_of_kind hkind rfl .nil
  | string hkind hkinds =>
    apply Balanced.level_of_kind hkind rfl
    apply Balanced.of_forall
    intro t ht
    rw [hkinds t ht]
    rfl
  | number hkind => exact .level_of_kind hkind rfl .nil
  | list hopening _ ih => exact ih.enclosed (by rw [hopening]; decide)
  | dict hopening _ ih => exact ih.enclosed (by rw [hopening]; decide)
  | parenthesised hopening _ hclosing ih =>
    exact .brackets (by rw [hopening]; decide) (by rw [hclosing]; decide) ih .nil
  | starred hstar _ ih =>
    rcases hstar with hstar | hstar
    · exact .level_of_kind hstar rfl ih
    · exact .level_of_kind hstar rfl ih
  | keyword hname hsign _ ih => exact .level_of_kind hname rfl (.level_of_kind hsign rfl ih)
  | entry _ hcolon _ ihkey ihvalue => exact ihkey.append (.level_of_kind hcolon rfl ihvalue)
  | @close kind closing hclosing =>
    refine ⟨[], closing, rfl, ?_, .nil⟩
    rw [hclosing]
    exact kind.closer_mem_closers
  | @last kind ss n closing _ hclosing ih =>
    refine ⟨ss, closing, rfl, ?_, Category.balanced_member.mp ih⟩
    rw [hclosing]
    exact kind.closer_mem_closers
  | @more kind ss ts n ns comma _ hcomma _ ih ihmore =>
    obtain ⟨body, closing, rfl, hclosing, hbody⟩ := ihmore
    refine ⟨ss ++ comma :: body, closing, by simp, hclosing, ?_⟩
    exact (Category.balanced_member.mp ih).append (.level_of_kind hcomma rfl hbody)

theorem LoadDerives.balanced {ss : List Symbol} {ns : List Node} (h : LoadDerives ss ns) :
    (Category.members .arguments).Balanced ss := by
  have hparen : ∀ {closing : Symbol}, closing.kind = .rparen → closing.kind ∈ closers := by
    intro closing hclosing
    rw [hclosing]
    decide
  induction h with
  | close hclosing => exact ⟨[], _, rfl, hparen hclosing, .nil⟩
  | closeBehindComma hcomma hclosing =>
    exact ⟨[_], _, rfl, hparen hclosing, .level_of_kind hcomma rfl .nil⟩
  | @more comma ss ts n ns hcomma h _ ih =>
    obtain ⟨body, closing, rfl, hclosing, hbody⟩ := ih
    refine ⟨comma :: (ss ++ body), closing, by simp, hclosing, ?_⟩
    exact .level_of_kind hcomma rfl (Balanced.append h.balanced hbody)

theorem StatementDerives.balanced {ss : List Symbol} {n : Node} (h : StatementDerives ss n) :
    StarlarkLint.Balanced ss := by
  cases h with
  | load hname hopening hmodule hargs =>
    obtain ⟨body, closing, rfl, hclosing, hbody⟩ := hargs.balanced
    refine .level_of_kind hname.1 rfl ?_
    exact .brackets (by rw [hopening]; decide) hclosing (.level_of_kind hmodule rfl hbody) .nil
  | value h _ => exact h.balanced
  | assign hx hsign hy _ =>
    refine Balanced.append hx.balanced ?_
    rcases hsign with hsign | hsign
    · exact .level_of_kind hsign rfl hy.balanced
    · exact .level_of_kind hsign rfl hy.balanced

theorem balanced_separators {seps : List Symbol} (h : ∀ s ∈ seps, Separates s) :
    StarlarkLint.Balanced seps := by
  apply Balanced.of_forall
  intro s hs
  rcases h s hs with h | h <;> simp [h, isBracket, openers, closers]

theorem BlockDerives.balanced {ss : List Symbol} {ns : List Node} (h : BlockDerives ss ns) :
    StarlarkLint.Balanced ss := by
  induction h with
  | none => exact .nil
  | last h => exact h.balanced
  | more h _ hseps _ ih => exact h.balanced.append ((balanced_separators hseps).append ih)

/-- **The symbols of a file are balanced.** -/
theorem FileDerives.balanced {ss : List Symbol} {ns : List Node} (h : FileDerives ss ns) :
    StarlarkLint.Balanced ss := by
  cases h with
  | mk hseps hblock hstop =>
    have hend : StarlarkLint.Balanced [_] := .level_of_kind hstop rfl .nil
    exact (balanced_separators hseps).append (hblock.balanced.append hend)

end Grammar

end StarlarkLint
