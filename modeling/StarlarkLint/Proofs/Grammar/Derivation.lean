import StarlarkLint.Grammar.Parser
import StarlarkLint.Proofs.Node.Bare
import StarlarkLint.Proofs.Token.Symbol

/-!
# The grammar

What a list of symbols may spell, said without a reader.  Symbols have no places, so that the trees
of the grammar are bare.

Values are sorted by how tightly they bind.  From the loosest to the tightest:

* `0` `or`, `1` `and`, `2` the prefix `not`, `3` comparisons, `4` `|`, `5` `+` and `-`,
  `6` `*`, `/`, `//` and `%`, `7` signs, `8` primaries with their members and calls.

A value of one strength is a value of every looser one.  The left operand of a binary operator has
the strength of the operator and the right one the next, which is what makes the operators associate
to the left; the operand of a prefix has the strength of the prefix.

## Main definitions

* `Grammar.operators`, `Grammar.Spells` — the binary operators by strength, and how they are
  spelled.
* `Grammar.Derives` — values, arguments, entries, and the members of sequences.
* `Grammar.StatementDerives`, `Grammar.FileDerives` — statements and files.

## Main results

* `Grammar.Derives.startsValue` — what a value starts with.
* `Grammar.Derives.second_ne_equals` — no value looks like an argument that is passed by keyword.
* `Grammar.Derives.isInner` — a value holds no separator, no comment, and no end of the file.
-/

namespace StarlarkLint

namespace Grammar

/-! ### Values -/

/-- The binary operators by their strength. -/
def operators : Nat → List String
  | 0 => ["or"]
  | 1 => ["and"]
  | 3 => ["==", "!=", "<", ">", "<=", ">=", "in", "not in"]
  | 4 => ["|"]
  | 5 => ["+", "-"]
  | 6 => ["*", "/", "//", "%"]
  | _ => []

/-- The signs that are binary operators. -/
def signs : List Symbol :=
  [⟨.compare, "=="⟩, ⟨.compare, "!="⟩, ⟨.compare, "<"⟩, ⟨.compare, ">"⟩, ⟨.compare, "<="⟩,
   ⟨.compare, ">="⟩, ⟨.pipe, "|"⟩, ⟨.plus, "+"⟩, ⟨.minus, "-"⟩, ⟨.star, "*"⟩, ⟨.slash, "/"⟩,
   ⟨.doubleSlash, "//"⟩, ⟨.percent, "%"⟩]

/-- The symbols that spell a binary operator. -/
inductive Spells : List Symbol → String → Prop
  /-- A sign spells itself. -/
  | sign {s : Symbol} (hsign : s ∈ signs) : Spells [s] s.value
  /-- So does a word. -/
  | word {s : Symbol} (hkind : s.kind = .keyword) (hvalue : s.value ∈ ["and", "or", "in"]) :
      Spells [s] s.value
  /-- Two words spell one operator. -/
  | notIn : Spells [⟨.keyword, "not"⟩, ⟨.keyword, "in"⟩] "not in"

/-- What a list of symbols may be derived as below statements. -/
inductive Category
  /-- A value that binds at least as tightly as the strength says. -/
  | value (strength : Nat)
  /-- An argument of a call or of a load. -/
  | argument
  /-- A key and its value. -/
  | entry
  /-- The members of a sequence and its closing bracket. -/
  | members (kind : Sequence)

/-- What the members of a sequence are. -/
def Sequence.member : Sequence → Category
  | arguments => .argument
  | items => .value 0
  | entries => .entry

/-- The derivations of values and their parts.  The members of a sequence are gathered in a list
node. -/
inductive Derives : Category → List Symbol → Node → Prop
  /-- A value of the next strength. -/
  | tighter {k : Nat} {ss : List Symbol} {n : Node} (h : Derives (.value (k + 1)) ss n) :
      Derives (.value k) ss n
  /-- A binary operator between two values. -/
  | operation {k : Nat} {xs os ys : List Symbol} {x y : Node} {op : String}
      (hleft : Derives (.value k) xs x) (hspells : Spells os op) (hop : op ∈ operators k)
      (hright : Derives (.value (k + 1)) ys y) :
      Derives (.value k) (xs ++ (os ++ ys)) (.binary {} op x y)
  /-- The prefix `not`. -/
  | negation {ss : List Symbol} {n : Node} (h : Derives (.value 2) ss n) :
      Derives (.value 2) (⟨.keyword, "not"⟩ :: ss) (.unary {} "not" n)
  /-- A sign. -/
  | sign {s : Symbol} {ss : List Symbol} {n : Node} (hsign : s.kind = .minus ∨ s.kind = .plus)
      (h : Derives (.value 7) ss n) : Derives (.value 7) (s :: ss) (.unary {} s.value n)
  /-- A member of a value. -/
  | member {ss : List Symbol} {n : Node} {dot name : Symbol} (h : Derives (.value 8) ss n)
      (hdot : dot.kind = .dot) (hname : name.kind = .identifier) :
      Derives (.value 8) (ss ++ [dot, name]) (.member {} n name.value)
  /-- A call. -/
  | call {ss as : List Symbol} {n : Node} {args : List Node} {opening : Symbol}
      (h : Derives (.value 8) ss n) (hopening : opening.kind = .lparen)
      (hargs : Derives (.members .arguments) as (.list {} args)) :
      Derives (.value 8) (ss ++ opening :: as) (.call {} n args)
  /-- A name that is not reserved. -/
  | name {s : Symbol} (hkind : s.kind = .identifier) (hfree : s.value ∉ reservedWords) :
      Derives (.value 8) [s] (.ident {} s.value)
  /-- One or more strings side by side, their contents joined. -/
  | string {s : Symbol} {ss : List Symbol} (hkind : s.kind = .string)
      (hkinds : ∀ t ∈ ss, t.kind = .string) :
      Derives (.value 8) (s :: ss) (.string {} (String.join (s.value :: ss.map (·.value))))
  /-- A number. -/
  | number {s : Symbol} (hkind : s.kind = .number) : Derives (.value 8) [s] (.number {} s.value)
  /-- A list. -/
  | list {opening : Symbol} {ss : List Symbol} {items : List Node}
      (hopening : opening.kind = .lbracket) (h : Derives (.members .items) ss (.list {} items)) :
      Derives (.value 8) (opening :: ss) (.list {} items)
  /-- A dictionary. -/
  | dict {opening : Symbol} {ss : List Symbol} {entries : List Node}
      (hopening : opening.kind = .lbrace)
      (h : Derives (.members .entries) ss (.list {} entries)) :
      Derives (.value 8) (opening :: ss) (.dict {} entries)
  /-- A value in parentheses, which leave no node behind. -/
  | parenthesised {opening closing : Symbol} {ss : List Symbol} {n : Node}
      (hopening : opening.kind = .lparen) (h : Derives (.value 0) ss n)
      (hclosing : closing.kind = .rparen) : Derives (.value 8) (opening :: (ss ++ [closing])) n
  /-- An argument that is passed by its place. -/
  | positional {ss : List Symbol} {n : Node} (h : Derives (.value 0) ss n) :
      Derives .argument ss n
  /-- An argument behind stars. -/
  | starred {star : Symbol} {ss : List Symbol} {n : Node}
      (hstar : star.kind = .star ∨ star.kind = .doubleStar) (h : Derives (.value 0) ss n) :
      Derives .argument (star :: ss) (.unary {} star.value n)
  /-- An argument that is passed by keyword; any name will do here. -/
  | keyword {name sign : Symbol} {ss : List Symbol} {n : Node} (hname : name.kind = .identifier)
      (hsign : sign.kind = .equals) (h : Derives (.value 0) ss n) :
      Derives .argument (name :: sign :: ss) (.assign {} (.ident {} name.value) "=" n)
  /-- A key, a colon and a value. -/
  | entry {ks vs : List Symbol} {key value : Node} {colon : Symbol}
      (hkey : Derives (.value 0) ks key) (hcolon : colon.kind = .colon)
      (hvalue : Derives (.value 0) vs value) :
      Derives .entry (ks ++ colon :: vs) (.entry {} key value)
  /-- No members, or none behind a comma. -/
  | close {kind : Sequence} {closing : Symbol} (hclosing : closing.kind = kind.closer) :
      Derives (.members kind) [closing] (.list {} [])
  /-- A last member without a comma behind it. -/
  | last {kind : Sequence} {ss : List Symbol} {n : Node} {closing : Symbol}
      (h : Derives kind.member ss n) (hclosing : closing.kind = kind.closer) :
      Derives (.members kind) (ss ++ [closing]) (.list {} [n])
  /-- A member with a comma behind it. -/
  | more {kind : Sequence} {ss ts : List Symbol} {n : Node} {ns : List Node} {comma : Symbol}
      (h : Derives kind.member ss n) (hcomma : comma.kind = .comma)
      (hmore : Derives (.members kind) ts (.list {} ns)) :
      Derives (.members kind) (ss ++ comma :: ts) (.list {} (n :: ns))

/-- A value of one strength is a value of every looser one. -/
theorem Derives.loosen {j k : Nat} {ss : List Symbol} {n : Node} (h : Derives (.value k) ss n)
    (hjk : j ≤ k) : Derives (.value j) ss n := by
  induction hjk with
  | refl => exact h
  | step _ ih => exact ih h.tighter

/-! ### Statements and files -/

/-- Whether a statement is read as a load: it starts with the name `load` and a parenthesis. -/
def StartsLoad : List Symbol → Prop
  | s :: t :: _ => s.kind = .identifier ∧ s.value = "load" ∧ t.kind = .lparen
  | _ => False

/-- The arguments of a load and its closing parenthesis, from behind the module on. -/
inductive LoadDerives : List Symbol → List Node → Prop
  /-- No further arguments. -/
  | close {closing : Symbol} (hclosing : closing.kind = .rparen) : LoadDerives [closing] []
  /-- No further arguments, behind a comma. -/
  | closeBehindComma {comma closing : Symbol} (hcomma : comma.kind = .comma)
      (hclosing : closing.kind = .rparen) : LoadDerives [comma, closing] []
  /-- A comma and an argument. -/
  | more {comma : Symbol} {ss ts : List Symbol} {n : Node} {ns : List Node}
      (hcomma : comma.kind = .comma) (h : Derives .argument ss n) (hmore : LoadDerives ts ns) :
      LoadDerives (comma :: (ss ++ ts)) (n :: ns)

/-- The derivations of a statement. -/
inductive StatementDerives : List Symbol → Node → Prop
  /-- A load of a module. -/
  | load {name opening module : Symbol} {ss : List Symbol} {args : List Node}
      (hname : name.kind = .identifier ∧ name.value = "load") (hopening : opening.kind = .lparen)
      (hmodule : module.kind = .string) (hargs : LoadDerives ss args) :
      StatementDerives (name :: opening :: module :: ss)
        (.load {} (.string {} module.value) args)
  /-- A value that does not read as a load. -/
  | value {ss : List Symbol} {n : Node} (h : Derives (.value 0) ss n) (hload : ¬ StartsLoad ss) :
      StatementDerives ss n
  /-- An assignment to a value that does not read as a load. -/
  | assign {xs ys : List Symbol} {x y : Node} {sign : Symbol} (hx : Derives (.value 0) xs x)
      (hsign : sign.kind = .equals ∨ sign.kind = .plusEquals) (hy : Derives (.value 0) ys y)
      (hload : ¬ StartsLoad xs) :
      StatementDerives (xs ++ sign :: ys) (.assign {} x sign.value y)

/-- Whether a symbol stands between statements. -/
def Separates (s : Symbol) : Prop := s.kind = .newline ∨ s.kind = .semicolon

/-- Statements with separators between them, and perhaps behind the last. -/
inductive BlockDerives : List Symbol → List Node → Prop
  /-- No statement. -/
  | none : BlockDerives [] []
  /-- The last statement. -/
  | last {ss : List Symbol} {n : Node} (h : StatementDerives ss n) : BlockDerives ss [n]
  /-- A statement, separators, and what follows them. -/
  | more {ss seps ts : List Symbol} {n : Node} {ns : List Node} (h : StatementDerives ss n)
      (hsome : seps ≠ []) (hseps : ∀ s ∈ seps, Separates s) (hmore : BlockDerives ts ns) :
      BlockDerives (ss ++ (seps ++ ts)) (n :: ns)

/-- The derivations of a file: statements, perhaps behind separators, and the end. -/
inductive FileDerives : List Symbol → List Node → Prop
  /-- The three parts of a file. -/
  | mk {seps ss : List Symbol} {ns : List Node} {stop : Symbol} (hseps : ∀ s ∈ seps, Separates s)
      (h : BlockDerives ss ns) (hstop : stop.kind = .endOfFile) :
      FileDerives (seps ++ (ss ++ [stop])) ns

/-- The derivation of a file without separators in front. -/
theorem FileDerives.of_block {ss : List Symbol} {ns : List Node} {stop : Symbol}
    (h : BlockDerives ss ns) (hstop : stop.kind = .endOfFile) : FileDerives (ss ++ [stop]) ns :=
  .mk (fun _ hs => absurd hs List.not_mem_nil) h hstop

/-! ### What derivations look like -/

/-- Whether a value of the given strength may start with a symbol. -/
def StartsValue (k : Nat) (s : Symbol) : Prop :=
  s.kind = .identifier ∧ s.value ∉ reservedWords ∨
    s.kind ∈ [TokenKind.string, .number, .lbracket, .lbrace, .lparen] ∨
    (k ≤ 7 ∧ (s.kind = .minus ∨ s.kind = .plus)) ∨ (k ≤ 2 ∧ s = ⟨.keyword, "not"⟩)

theorem StartsValue.mono {j k : Nat} {s : Symbol} (h : StartsValue k s) (hjk : j ≤ k) :
    StartsValue j s := by
  rcases h with h | h | ⟨hk, h⟩ | ⟨hk, h⟩
  · exact .inl h
  · exact .inr (.inl h)
  · exact .inr (.inr (.inl ⟨by omega, h⟩))
  · exact .inr (.inr (.inr ⟨by omega, h⟩))

/-- The kinds of symbols that values start with. -/
def startKinds : List TokenKind :=
  [.identifier, .string, .number, .lbracket, .lbrace, .lparen, .minus, .plus, .keyword]

theorem StartsValue.kind_mem {k : Nat} {s : Symbol} (h : StartsValue k s) :
    s.kind ∈ startKinds := by
  rcases h with ⟨h, -⟩ | h | ⟨-, h | h⟩ | ⟨-, rfl⟩
  · simp [h, startKinds]
  · have hall : ∀ kind ∈ [TokenKind.string, .number, .lbracket, .lbrace, .lparen],
        kind ∈ startKinds := by decide
    exact hall _ h
  · simp [h, startKinds]
  · simp [h, startKinds]
  · simp [startKinds]

/-- Values that bind more tightly than the prefix `not` do not start with it. -/
theorem StartsValue.kind_ne_keyword {k : Nat} {s : Symbol} (h : StartsValue k s) (hk : 2 < k) :
    s.kind ≠ .keyword := by
  rcases h with ⟨h, -⟩ | h | ⟨-, h | h⟩ | ⟨hle, -⟩
  · simp [h]
  · intro heq
    simp [heq] at h
  · simp [h]
  · simp [h]
  · omega

/-- A value starts with a symbol that its strength allows. -/
theorem Derives.startsValue {k : Nat} {ss : List Symbol} {n : Node} (h : Derives (.value k) ss n) :
    ∃ s ts, ss = s :: ts ∧ StartsValue k s := by
  generalize hc : Category.value k = c at h
  induction h generalizing k with
  | tighter _ ih =>
    cases hc
    obtain ⟨s, ts, rfl, hs⟩ := ih rfl
    exact ⟨s, ts, rfl, hs.mono (Nat.le_succ _)⟩
  | operation _ _ _ _ ih _ =>
    cases hc
    obtain ⟨s, ts, rfl, hs⟩ := ih rfl
    exact ⟨s, _, rfl, hs⟩
  | negation _ _ =>
    cases hc
    exact ⟨_, _, rfl, .inr (.inr (.inr ⟨Nat.le_refl 2, rfl⟩))⟩
  | sign hsign _ _ =>
    cases hc
    exact ⟨_, _, rfl, .inr (.inr (.inl ⟨Nat.le_refl 7, hsign⟩))⟩
  | member _ _ _ ih =>
    cases hc
    obtain ⟨s, ts, rfl, hs⟩ := ih rfl
    exact ⟨s, _, rfl, hs⟩
  | call _ _ _ ih _ =>
    cases hc
    obtain ⟨s, ts, rfl, hs⟩ := ih rfl
    exact ⟨s, _, rfl, hs⟩
  | name hkind hfree => exact ⟨_, _, rfl, .inl ⟨hkind, hfree⟩⟩
  | string hkind _ => exact ⟨_, _, rfl, .inr (.inl (by simp [hkind]))⟩
  | number hkind => exact ⟨_, _, rfl, .inr (.inl (by simp [hkind]))⟩
  | list hopening _ _ => exact ⟨_, _, rfl, .inr (.inl (by simp [hopening]))⟩
  | dict hopening _ _ => exact ⟨_, _, rfl, .inr (.inl (by simp [hopening]))⟩
  | parenthesised hopening _ _ _ => exact ⟨_, _, rfl, .inr (.inl (by simp [hopening]))⟩
  | _ => cases hc

theorem Sequence.closer_ne_equals (kind : Sequence) : kind.closer ≠ .equals := by
  cases kind <;> decide

/-- A member does not start like the end of its sequence. -/
theorem Derives.head_member {kind : Sequence} {ss : List Symbol} {n : Node}
    (h : Derives kind.member ss n) :
    ∃ s ts, ss = s :: ts ∧ s.kind ≠ kind.closer ∧ s.kind ≠ .endOfFile := by
  have hne : ∀ k ∈ .star :: .doubleStar :: startKinds,
      k ≠ .rparen ∧ k ≠ .rbracket ∧ k ≠ .rbrace ∧ k ≠ .endOfFile := by decide
  have of_kind : ∀ {s : Symbol}, s.kind ∈ .star :: .doubleStar :: startKinds →
      s.kind ≠ kind.closer ∧ s.kind ≠ .endOfFile := fun h => by
    obtain ⟨hparen, hbracket, hbrace, hend⟩ := hne _ h
    cases kind <;> exact ⟨by assumption, hend⟩
  have of_value : ∀ {ss n}, Derives (.value 0) ss n →
      ∃ s ts, ss = s :: ts ∧ s.kind ≠ kind.closer ∧ s.kind ≠ .endOfFile := fun h => by
    obtain ⟨s, ts, rfl, hs⟩ := h.startsValue
    exact ⟨s, ts, rfl, of_kind (List.mem_cons_of_mem _ (List.mem_cons_of_mem _ hs.kind_mem))⟩
  cases kind with
  | arguments =>
    cases h with
    | positional h => exact of_value h
    | starred hstar _ => exact ⟨_, _, rfl, of_kind (by rcases hstar with h | h <;> simp [h])⟩
    | keyword hname _ _ => exact ⟨_, _, rfl, of_kind (by simp [hname, startKinds])⟩
  | items => exact of_value h
  | entries =>
    cases h with
    | entry hkey _ _ =>
      obtain ⟨s, ts, rfl, hs⟩ := of_value hkey
      exact ⟨s, _, rfl, hs⟩

/-- No derivation starts with the sign of an assignment. -/
theorem Derives.head_ne_equals {c : Category} {ss : List Symbol} {n : Node} (h : Derives c ss n) :
    ∃ s ts, ss = s :: ts ∧ s.kind ≠ .equals := by
  induction h with
  | tighter _ ih => exact ih
  | positional _ ih => exact ih
  | operation _ _ _ _ ih _ =>
    obtain ⟨s, ts, rfl, hs⟩ := ih
    exact ⟨s, _, rfl, hs⟩
  | member _ _ _ ih =>
    obtain ⟨s, ts, rfl, hs⟩ := ih
    exact ⟨s, _, rfl, hs⟩
  | call _ _ _ ih _ =>
    obtain ⟨s, ts, rfl, hs⟩ := ih
    exact ⟨s, _, rfl, hs⟩
  | entry _ _ _ ih _ =>
    obtain ⟨s, ts, rfl, hs⟩ := ih
    exact ⟨s, _, rfl, hs⟩
  | last _ _ ih =>
    obtain ⟨s, ts, rfl, hs⟩ := ih
    exact ⟨s, _, rfl, hs⟩
  | more _ _ _ ih _ =>
    obtain ⟨s, ts, rfl, hs⟩ := ih
    exact ⟨s, _, rfl, hs⟩
  | negation _ _ => exact ⟨_, _, rfl, by simp⟩
  | sign hsign _ _ => exact ⟨_, _, rfl, by rcases hsign with h | h <;> simp [h]⟩
  | name hkind _ => exact ⟨_, _, rfl, by simp [hkind]⟩
  | string hkind _ => exact ⟨_, _, rfl, by simp [hkind]⟩
  | number hkind => exact ⟨_, _, rfl, by simp [hkind]⟩
  | list hopening _ _ => exact ⟨_, _, rfl, by simp [hopening]⟩
  | dict hopening _ _ => exact ⟨_, _, rfl, by simp [hopening]⟩
  | parenthesised hopening _ _ _ => exact ⟨_, _, rfl, by simp [hopening]⟩
  | starred hstar _ _ => exact ⟨_, _, rfl, by rcases hstar with h | h <;> simp [h]⟩
  | keyword hname _ _ _ => exact ⟨_, _, rfl, by simp [hname]⟩
  | close hclosing => exact ⟨_, _, rfl, by rw [hclosing]; exact Sequence.closer_ne_equals _⟩

theorem kind_mem_signKinds {s : Symbol} (h : s ∈ signs) : s.kind ∈ Operator.signKinds := by
  have hall : ∀ s ∈ signs, s.kind ∈ Operator.signKinds := by decide
  exact hall s h

/-- What spells an operator starts with a keyword or a sign. -/
theorem Spells.kind_mem {os : List Symbol} {op : String} (h : Spells os op) :
    ∃ o ts, os = o :: ts ∧ o.kind ∈ .keyword :: Operator.signKinds := by
  cases h with
  | sign hsign => exact ⟨_, _, rfl, List.mem_cons_of_mem _ (kind_mem_signKinds hsign)⟩
  | word hkind _ => exact ⟨_, _, rfl, by simp [hkind]⟩
  | notIn => exact ⟨_, _, rfl, by simp⟩

theorem Spells.kind_ne_equals {os : List Symbol} {op : String} (h : Spells os op) :
    ∃ o ts, os = o :: ts ∧ o.kind ≠ .equals := by
  obtain ⟨o, ts, rfl, hkind⟩ := h.kind_mem
  refine ⟨o, ts, rfl, fun heq => ?_⟩
  rw [heq] at hkind
  exact absurd hkind (by decide)

/-- A value has no second symbol, or one that is not the sign of an assignment: it never looks like
an argument that is passed by keyword. -/
theorem Derives.second_ne_equals {k : Nat} {ss : List Symbol} {n : Node}
    (h : Derives (.value k) ss n) : ∃ s ts, ss = s :: ts ∧ ∀ t ∈ ts.head?, t.kind ≠ .equals := by
  -- what follows the value is not the sign either, so that it does not matter where it ends
  have append : ∀ {ss us : List Symbol}, (∃ s ts, ss = s :: ts ∧ ∀ t ∈ ts.head?, t.kind ≠ .equals) →
      (∃ u ts, us = u :: ts ∧ u.kind ≠ .equals) →
      ∃ s ts, ss ++ us = s :: ts ∧ ∀ t ∈ ts.head?, t.kind ≠ .equals := by
    rintro _ _ ⟨s, ts, rfl, hs⟩ ⟨u, us, rfl, hu⟩
    cases ts with
    | nil => exact ⟨s, _, rfl, by simpa using hu⟩
    | cons t ts => exact ⟨s, _, rfl, by simpa using hs⟩
  generalize hc : Category.value k = c at h
  induction h generalizing k with
  | tighter _ ih =>
    cases hc
    exact ih rfl
  | operation _ hspells _ _ ih _ =>
    cases hc
    obtain ⟨o, os, rfl, ho⟩ := hspells.kind_ne_equals
    exact append (ih rfl) ⟨o, _, rfl, ho⟩
  | negation h _ =>
    obtain ⟨s, ts, rfl, hs⟩ := h.head_ne_equals
    exact ⟨_, _, rfl, by simpa using hs⟩
  | sign _ h _ =>
    obtain ⟨s, ts, rfl, hs⟩ := h.head_ne_equals
    exact ⟨_, _, rfl, by simpa using hs⟩
  | member _ hdot _ ih =>
    cases hc
    exact append (ih rfl) ⟨_, _, rfl, by simp [hdot]⟩
  | call _ hopening _ ih _ =>
    cases hc
    exact append (ih rfl) ⟨_, _, rfl, by simp [hopening]⟩
  | name _ _ => exact ⟨_, _, rfl, by simp⟩
  | @string s ss _ hkinds =>
    refine ⟨_, _, rfl, fun t ht => ?_⟩
    simp [hkinds t (List.mem_of_mem_head? ht)]
  | number _ => exact ⟨_, _, rfl, by simp⟩
  | list _ h _ =>
    obtain ⟨s, ts, rfl, hs⟩ := h.head_ne_equals
    exact ⟨_, _, rfl, by simpa using hs⟩
  | dict _ h _ =>
    obtain ⟨s, ts, rfl, hs⟩ := h.head_ne_equals
    exact ⟨_, _, rfl, by simpa using hs⟩
  | parenthesised _ h _ _ =>
    obtain ⟨s, ts, rfl, hs⟩ := h.head_ne_equals
    exact ⟨_, _, rfl, by simpa using hs⟩
  | _ => cases hc

/-- Whether a symbol may stand inside a statement. -/
def IsInner (s : Symbol) : Prop :=
  s.kind ∉ [TokenKind.newline, .semicolon, .comment, .endOfFile]

theorem Spells.isInner {os : List Symbol} {op : String} (h : Spells os op) :
    ∀ o ∈ os, IsInner o := by
  cases h with
  | @sign s hsign =>
    have hkind := kind_mem_signKinds hsign
    simp only [List.mem_singleton, forall_eq]
    intro hmem
    simp only [List.mem_cons, List.not_mem_nil, or_false] at hmem
    rcases hmem with h | h | h | h <;> rw [h] at hkind <;> exact absurd hkind (by decide)
  | word hkind _ => simp [IsInner, hkind]
  | notIn => simp [IsInner]

theorem Sequence.isInner_of_closer {kind : Sequence} {s : Symbol} (h : s.kind = kind.closer) :
    IsInner s := by
  unfold IsInner
  rw [h]
  cases kind <;> decide

/-- A derivation holds no separators, no comments, and no end of the file. -/
theorem Derives.isInner {c : Category} {ss : List Symbol} {n : Node} (h : Derives c ss n) :
    ∀ s ∈ ss, IsInner s := by
  induction h with
  | tighter _ ih => exact ih
  | positional _ ih => exact ih
  | operation _ hspells _ _ ihx ihy =>
    simp only [List.forall_mem_append]
    exact ⟨ihx, hspells.isInner, ihy⟩
  | negation _ ih => simpa [IsInner] using ih
  | sign hsign _ ih =>
    rcases hsign with h | h <;> simpa [IsInner, h] using ih
  | member _ hdot hname ih =>
    simp only [List.forall_mem_append]
    exact ⟨ih, by simp [IsInner, hdot, hname]⟩
  | call _ hopening _ ih ihargs =>
    simp only [List.forall_mem_append, List.forall_mem_cons]
    exact ⟨ih, by simp [IsInner, hopening], ihargs⟩
  | name hkind _ => simp [IsInner, hkind]
  | string hkind hkinds =>
    simp only [List.forall_mem_cons]
    exact ⟨by simp [IsInner, hkind], fun t ht => by simp [IsInner, hkinds t ht]⟩
  | number hkind => simp [IsInner, hkind]
  | list hopening _ ih => simpa [IsInner, hopening] using ih
  | dict hopening _ ih => simpa [IsInner, hopening] using ih
  | parenthesised hopening _ hclosing ih =>
    simp only [List.forall_mem_append, List.forall_mem_cons]
    exact ⟨by simp [IsInner, hopening], ih, by simp [IsInner, hclosing]⟩
  | starred hstar _ ih =>
    rcases hstar with h | h <;> simpa [IsInner, h] using ih
  | keyword hname hsign _ ih => simpa [IsInner, hname, hsign] using ih
  | entry _ hcolon _ ihkey ihvalue =>
    simp only [List.forall_mem_append, List.forall_mem_cons]
    exact ⟨ihkey, by simp [IsInner, hcolon], ihvalue⟩
  | close hclosing => simpa using Sequence.isInner_of_closer hclosing
  | last _ hclosing ih =>
    simp only [List.forall_mem_append]
    exact ⟨ih, by simpa using Sequence.isInner_of_closer hclosing⟩
  | more _ hcomma _ ih ihmore =>
    simp only [List.forall_mem_append, List.forall_mem_cons]
    exact ⟨ih, by simp [IsInner, hcomma], ihmore⟩

theorem LoadDerives.isInner {ss : List Symbol} {ns : List Node} (h : LoadDerives ss ns) :
    ∀ s ∈ ss, IsInner s := by
  induction h with
  | close hclosing => simp [IsInner, hclosing]
  | closeBehindComma hcomma hclosing => simp [IsInner, hcomma, hclosing]
  | more hcomma h _ ih =>
    simp only [List.forall_mem_cons, List.forall_mem_append]
    exact ⟨by simp [IsInner, hcomma], h.isInner, ih⟩

/-- A statement is not empty, and holds no separators, no comments, and no end of the file. -/
theorem StatementDerives.isInner {ss : List Symbol} {n : Node} (h : StatementDerives ss n) :
    ss ≠ [] ∧ ∀ s ∈ ss, IsInner s := by
  cases h with
  | load hname hopening hmodule hargs =>
    simp only [List.forall_mem_cons]
    exact ⟨by simp, by simp [IsInner, hname], by simp [IsInner, hopening],
      by simp [IsInner, hmodule], hargs.isInner⟩
  | value h _ =>
    obtain ⟨s, ts, rfl, -⟩ := h.head_ne_equals
    exact ⟨by simp, h.isInner⟩
  | assign hx hsign hy _ =>
    simp only [List.forall_mem_append, List.forall_mem_cons]
    exact ⟨by simp, hx.isInner, by rcases hsign with h | h <;> simp [IsInner, h], hy.isInner⟩

/-- What stands in front of a separator or of the end of the file is a whole statement or nothing:
a block that starts with neither a statement's first symbol is empty. -/
theorem BlockDerives.eq_nil_or_isInner {ss : List Symbol} {ns : List Node}
    (h : BlockDerives ss ns) : (ss = [] ∧ ns = []) ∨ ∃ s ts, ss = s :: ts ∧ IsInner s := by
  cases h with
  | none => exact .inl ⟨rfl, rfl⟩
  | last h =>
    obtain ⟨hsome, hinner⟩ := h.isInner
    obtain ⟨s, ts, rfl⟩ := List.exists_cons_of_ne_nil hsome
    exact .inr ⟨s, ts, rfl, hinner s List.mem_cons_self⟩
  | more h _ _ _ =>
    obtain ⟨hsome, hinner⟩ := h.isInner
    obtain ⟨s, ts, rfl⟩ := List.exists_cons_of_ne_nil hsome
    exact .inr ⟨s, _, rfl, hinner s List.mem_cons_self⟩

theorem IsInner.kind_ne_endOfFile {s : Symbol} (h : IsInner s) : s.kind ≠ .endOfFile := by
  intro hend
  simp [IsInner, hend] at h

theorem IsInner.kind_ne_comment {s : Symbol} (h : IsInner s) : s.kind ≠ .comment := by
  intro hcomment
  simp [IsInner, hcomment] at h

/-- The end of the file stands behind all statements. -/
theorem BlockDerives.kind_ne_endOfFile {ss : List Symbol} {ns : List Node}
    (h : BlockDerives ss ns) : ∀ s ∈ ss, s.kind ≠ .endOfFile := by
  induction h with
  | none => simp
  | last h => exact fun s hs => (h.isInner.2 s hs).kind_ne_endOfFile
  | more h _ hseps _ ih =>
    simp only [List.forall_mem_append]
    refine ⟨fun s hs => (h.isInner.2 s hs).kind_ne_endOfFile, fun s hs => ?_, ih⟩
    rcases hseps s hs with hsep | hsep <;> simp [hsep]

end Grammar

end StarlarkLint
