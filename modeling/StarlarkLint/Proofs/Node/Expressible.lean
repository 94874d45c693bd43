import StarlarkLint.Proofs.Grammar.Derivation
import StarlarkLint.Proofs.Token.Lexeme

/-!
# Trees that the language can express

A tree can hold more than a text can spell: an operator that the language does not have, a name with
a blank in it, a list where an entry belongs.  The trees that a text can spell are those built from
names, numbers and operators that are lexemes, with every node in a place where the grammar has it.

Names are restricted by a condition of the reader's choice.  The grammar asks that they are not
reserved; a name behind a dot, or that an argument is passed by, may be any.

## Main definitions

* `Node.Expressible`, `Node.IsStatement` — trees below statements, and statements.
* `Node.AnyName`, `Grammar.Free` — conditions on names: none, and that of the grammar.
* `Node.usedNames` — the names that a tree reads or writes.

## Main results

* `Node.IsStatement.allowed`, `Node.IsStatement.restrict` — the condition on names, apart from the
  rest.
* `Grammar.Derives.expresses`, `Grammar.FileDerives.isStatement` — what is derived from lexemes is
  expressible.
-/

namespace StarlarkLint

/-- The place in which a node stands. -/
inductive Role
  /-- A value. -/
  | value
  /-- An argument of a call or of a load. -/
  | argument
  /-- An entry of a dictionary. -/
  | entry
  deriving DecidableEq, Repr

/-- The place of the members of a sequence. -/
def Grammar.Sequence.role : Grammar.Sequence → Role
  | arguments => .argument
  | items => .value
  | entries => .entry

/-- What the grammar asks of a node in a place. -/
def Role.category : Role → Grammar.Category
  | value => .value 0
  | argument => .argument
  | entry => .entry

theorem Grammar.Sequence.member_eq_category (kind : Grammar.Sequence) :
    kind.member = kind.role.category := by
  cases kind <;> rfl

namespace Node

/-- The trees that a text can spell, with names that are allowed. -/
inductive Expressible (allowed : String → Prop) : Role → Node → Prop
  /-- A name. -/
  | ident {s : Span} {name : String} (hname : IsLexeme .identifier name) (hallowed : allowed name) :
      Expressible allowed .value (.ident s name)
  /-- A string, of any content. -/
  | string {s : Span} {value : String} : Expressible allowed .value (.string s value)
  /-- A number. -/
  | number {s : Span} {value : String} (hvalue : IsLexeme .number value) :
      Expressible allowed .value (.number s value)
  /-- A list of values. -/
  | list {s : Span} {items : List Node} (h : ∀ n ∈ items, Expressible allowed .value n) :
      Expressible allowed .value (.list s items)
  /-- A dictionary of entries. -/
  | dict {s : Span} {entries : List Node} (h : ∀ n ∈ entries, Expressible allowed .entry n) :
      Expressible allowed .value (.dict s entries)
  /-- A member of a value, of any name. -/
  | member {s : Span} {base : Node} {name : String} (h : Expressible allowed .value base)
      (hname : IsLexeme .identifier name) : Expressible allowed .value (.member s base name)
  /-- A call. -/
  | call {s : Span} {callee : Node} {args : List Node} (h : Expressible allowed .value callee)
      (hargs : ∀ n ∈ args, Expressible allowed .argument n) :
      Expressible allowed .value (.call s callee args)
  /-- A sign or the prefix `not`. -/
  | unary {s : Span} {op : String} {operand : Node} (hop : op ∈ ["-", "+", "not"])
      (h : Expressible allowed .value operand) : Expressible allowed .value (.unary s op operand)
  /-- A binary operator. -/
  | binary {s : Span} {op : String} {left right : Node} (hop : op ∈ Operator.levels.flatten)
      (hleft : Expressible allowed .value left) (hright : Expressible allowed .value right) :
      Expressible allowed .value (.binary s op left right)
  /-- An argument that is passed by its place. -/
  | positional {n : Node} (h : Expressible allowed .value n) : Expressible allowed .argument n
  /-- An argument behind stars. -/
  | starred {s : Span} {op : String} {operand : Node} (hop : op ∈ ["*", "**"])
      (h : Expressible allowed .value operand) :
      Expressible allowed .argument (.unary s op operand)
  /-- An argument that is passed by keyword, of any name. -/
  | keyword {s s' : Span} {name : String} {value : Node} (hname : IsLexeme .identifier name)
      (h : Expressible allowed .value value) :
      Expressible allowed .argument (.assign s (.ident s' name) "=" value)
  /-- A key and its value. -/
  | entry {s : Span} {key value : Node} (hkey : Expressible allowed .value key)
      (hvalue : Expressible allowed .value value) : Expressible allowed .entry (.entry s key value)

/-- The condition on names that asks for nothing. -/
abbrev AnyName (_ : String) : Prop := True

/-- The statements that a text can spell, with names that are allowed. -/
inductive IsStatement (allowed : String → Prop) : Node → Prop
  /-- A load. -/
  | load {s s' : Span} {module : String} {args : List Node}
      (hargs : ∀ n ∈ args, Expressible allowed .argument n) :
      IsStatement allowed (.load s (.string s' module) args)
  /-- A value. -/
  | value {n : Node} (h : Expressible allowed .value n) : IsStatement allowed n
  /-- An assignment. -/
  | assign {s : Span} {target value : Node} {op : String} (hop : op ∈ ["=", "+="])
      (htarget : Expressible allowed .value target) (hvalue : Expressible allowed .value value) :
      IsStatement allowed (.assign s target op value)

/-! ### Spans make no difference -/

theorem exists_mem_bareAll {nodes : List Node} {node : Node} (h : node ∈ nodes) :
    node.bare ∈ bareAll nodes := by
  rw [bareAll_eq_map]
  exact List.mem_map_of_mem h

/-- A tree is expressible if its bare form is. -/
theorem Expressible.of_bare {allowed : String → Prop} {role : Role} {m : Node}
    (h : Expressible allowed role m) : ∀ n : Node, n.bare = m → Expressible allowed role n := by
  induction h with
  | ident hname hallowed =>
    intro n hn
    cases n <;> simp only [bare, reduceCtorEq] at hn
    cases hn
    exact .ident hname hallowed
  | string =>
    intro n hn
    cases n <;> simp only [bare, reduceCtorEq] at hn
    exact .string
  | number hvalue =>
    intro n hn
    cases n <;> simp only [bare, reduceCtorEq] at hn
    cases hn
    exact .number hvalue
  | list _ ih =>
    intro n hn
    cases n <;> simp only [bare, reduceCtorEq] at hn
    cases hn
    exact .list fun n hn => ih _ (exists_mem_bareAll hn) n rfl
  | dict _ ih =>
    intro n hn
    cases n <;> simp only [bare, reduceCtorEq] at hn
    cases hn
    exact .dict fun n hn => ih _ (exists_mem_bareAll hn) n rfl
  | member _ hname ih =>
    intro n hn
    cases n <;> simp only [bare, reduceCtorEq] at hn
    cases hn
    exact .member (ih _ rfl) hname
  | call _ _ ih ihargs =>
    intro n hn
    cases n <;> simp only [bare, reduceCtorEq] at hn
    cases hn
    exact .call (ih _ rfl) fun n hn => ihargs _ (exists_mem_bareAll hn) n rfl
  | unary hop _ ih =>
    intro n hn
    cases n <;> simp only [bare, reduceCtorEq] at hn
    cases hn
    exact .unary hop (ih _ rfl)
  | binary hop _ _ ihleft ihright =>
    intro n hn
    cases n <;> simp only [bare, reduceCtorEq] at hn
    cases hn
    exact .binary hop (ihleft _ rfl) (ihright _ rfl)
  | positional _ ih => exact fun n hn => .positional (ih n hn)
  | starred hop _ ih =>
    intro n hn
    cases n <;> simp only [bare, reduceCtorEq] at hn
    cases hn
    exact .starred hop (ih _ rfl)
  | keyword hname _ ih =>
    intro n hn
    cases n with
    | assign s target op value =>
      cases target <;> simp only [bare, assign.injEq, reduceCtorEq, false_and, and_false] at hn
      obtain ⟨-, hident, rfl, rfl⟩ := hn
      cases hident
      exact .keyword hname (ih _ rfl)
    | _ => simp only [bare, reduceCtorEq] at hn
  | entry _ _ ihkey ihvalue =>
    intro n hn
    cases n <;> simp only [bare, reduceCtorEq] at hn
    cases hn
    exact .entry (ihkey _ rfl) (ihvalue _ rfl)

/-- A statement can be spelled if its bare form can. -/
theorem IsStatement.of_bare {allowed : String → Prop} {m : Node} (h : IsStatement allowed m) :
    ∀ n : Node, n.bare = m → IsStatement allowed n := by
  intro n hn
  cases h with
  | load hargs =>
    cases n with
    | load s module args =>
      cases module <;> simp only [bare, load.injEq, reduceCtorEq, false_and, and_false] at hn
      obtain ⟨-, hmodule, rfl⟩ := hn
      exact .load fun n hn => (hargs _ (exists_mem_bareAll hn)).of_bare n rfl
    | _ => simp only [bare, reduceCtorEq] at hn
  | value h => exact .value (h.of_bare n hn)
  | assign hop htarget hvalue =>
    cases n <;> simp only [bare, reduceCtorEq] at hn
    cases hn
    exact .assign hop (htarget.of_bare _ rfl) (hvalue.of_bare _ rfl)

/-! ### Names -/

mutual

/-- The names that a tree reads or writes: not those behind dots, nor those that arguments are
passed by. -/
def usedNames : Node → List String
  | hole => []
  | ident _ name => [name]
  | string _ _ => []
  | number _ _ => []
  | list _ items => usedNamesAll items
  | dict _ entries => usedNamesAll entries
  | entry _ key value => usedNames key ++ usedNames value
  | member _ base _ => usedNames base
  | call _ callee args => usedNames callee ++ argumentNames args
  | unary _ _ operand => usedNames operand
  | binary _ _ left right => usedNames left ++ usedNames right
  | assign _ target _ value => usedNames target ++ usedNames value
  | load _ module args => usedNames module ++ argumentNames args
  | file _ _ _ statements => usedNamesAll statements

/-- The names that the trees in a sequence read or write. -/
def usedNamesAll : List Node → List String
  | [] => []
  | node :: nodes => usedNames node ++ usedNamesAll nodes

/-- The names that arguments read or write. -/
def argumentNames : List Node → List String
  | [] => []
  | assign _ _ _ value :: nodes => usedNames value ++ argumentNames nodes
  | node :: nodes => usedNames node ++ argumentNames nodes

end

/-- The names that a tree reads or writes in a place. -/
def namesIn : Role → Node → List String
  | .argument, assign _ _ _ value => value.usedNames
  | _, node => node.usedNames

theorem usedNamesAll_eq_flatMap (nodes : List Node) :
    usedNamesAll nodes = nodes.flatMap usedNames := by
  induction nodes with
  | nil => rfl
  | cons node nodes ih => rw [usedNamesAll, ih, List.flatMap_cons]

theorem argumentNames_eq_flatMap (nodes : List Node) :
    argumentNames nodes = nodes.flatMap (namesIn .argument) := by
  induction nodes with
  | nil => rfl
  | cons node nodes ih =>
    rw [List.flatMap_cons, ← ih]
    cases node <;> rfl

theorem namesIn_of_value {allowed : String → Prop} {n : Node}
    (h : Expressible allowed .value n) (role : Role) : namesIn role n = n.usedNames := by
  cases h <;> cases role <;> rfl

/-- The names of an expressible tree are allowed. -/
theorem Expressible.allowed {allowed : String → Prop} {role : Role} {n : Node}
    (h : Expressible allowed role n) : ∀ name ∈ namesIn role n, allowed name := by
  induction h with
  | ident _ hallowed => simpa [namesIn, usedNames] using hallowed
  | string => simp [namesIn, usedNames]
  | number _ => simp [namesIn, usedNames]
  | list h ih =>
    intro name hname
    simp only [namesIn, usedNames, usedNamesAll_eq_flatMap, List.mem_flatMap] at hname
    obtain ⟨n, hn, hname⟩ := hname
    exact ih n hn name hname
  | dict h ih =>
    intro name hname
    simp only [namesIn, usedNames, usedNamesAll_eq_flatMap, List.mem_flatMap] at hname
    obtain ⟨n, hn, hname⟩ := hname
    exact ih n hn name hname
  | member _ _ ih => exact ih
  | call _ _ ih ihargs =>
    intro name hname
    simp only [namesIn, usedNames, argumentNames_eq_flatMap, List.mem_append, List.mem_flatMap]
      at hname
    rcases hname with hname | ⟨n, hn, hname⟩
    · exact ih name hname
    · exact ihargs n hn name hname
  | unary _ _ ih => exact ih
  | binary _ _ _ ihleft ihright =>
    intro name hname
    rcases List.mem_append.mp hname with hname | hname
    · exact ihleft name hname
    · exact ihright name hname
  | positional h ih =>
    rw [namesIn_of_value h] at ih ⊢
    exact ih
  | starred _ _ ih => exact ih
  | keyword _ _ ih => exact ih
  | entry _ _ ihkey ihvalue =>
    intro name hname
    rcases List.mem_append.mp hname with hname | hname
    · exact ihkey name hname
    · exact ihvalue name hname

/-- A tree of any names is expressible with those that it has. -/
theorem Expressible.restrict {p q : String → Prop} {role : Role} {n : Node}
    (h : Expressible p role n) (hnames : ∀ name ∈ namesIn role n, q name) :
    Expressible q role n := by
  induction h with
  | ident hname _ => exact .ident hname (hnames _ (by simp [namesIn, usedNames]))
  | string => exact .string
  | number hvalue => exact .number hvalue
  | list _ ih =>
    refine .list fun n hn => ih n hn fun name hname => hnames name ?_
    simp only [namesIn, usedNames, usedNamesAll_eq_flatMap, List.mem_flatMap]
    exact ⟨n, hn, hname⟩
  | dict _ ih =>
    refine .dict fun n hn => ih n hn fun name hname => hnames name ?_
    simp only [namesIn, usedNames, usedNamesAll_eq_flatMap, List.mem_flatMap]
    exact ⟨n, hn, hname⟩
  | member _ hname ih => exact .member (ih hnames) hname
  | call _ _ ih ihargs =>
    simp only [namesIn, usedNames, argumentNames_eq_flatMap, List.mem_append, List.mem_flatMap]
      at hnames
    exact .call (ih fun name hname => hnames name (.inl hname))
      fun n hn => ihargs n hn fun name hname => hnames name (.inr ⟨n, hn, hname⟩)
  | unary hop _ ih => exact .unary hop (ih hnames)
  | binary hop _ _ ihleft ihright =>
    exact .binary hop (ihleft fun name hname => hnames name (List.mem_append_left _ hname))
      (ihright fun name hname => hnames name (List.mem_append_right _ hname))
  | positional h ih =>
    rw [namesIn_of_value h] at hnames
    exact .positional (ih hnames)
  | starred hop _ ih => exact .starred hop (ih hnames)
  | keyword hname _ ih => exact .keyword hname (ih hnames)
  | entry _ _ ihkey ihvalue =>
    exact .entry (ihkey fun name hname => hnames name (List.mem_append_left _ hname))
      (ihvalue fun name hname => hnames name (List.mem_append_right _ hname))

/-- The names of a statement are allowed. -/
theorem IsStatement.allowed {allowed : String → Prop} {n : Node} (h : IsStatement allowed n) :
    ∀ name ∈ n.usedNames, allowed name := by
  intro name hname
  cases h with
  | load hargs =>
    simp only [usedNames, argumentNames_eq_flatMap, List.nil_append, List.mem_flatMap] at hname
    obtain ⟨n, hn, hname⟩ := hname
    exact (hargs n hn).allowed name hname
  | value h => exact h.allowed name hname
  | assign _ htarget hvalue =>
    rcases List.mem_append.mp hname with hname | hname
    · exact htarget.allowed name hname
    · exact hvalue.allowed name hname

/-- A statement of any names can be spelled with those that it has. -/
theorem IsStatement.restrict {p q : String → Prop} {n : Node} (h : IsStatement p n)
    (hnames : ∀ name ∈ n.usedNames, q name) : IsStatement q n := by
  cases h with
  | load hargs =>
    simp only [usedNames, argumentNames_eq_flatMap, List.nil_append, List.mem_flatMap] at hnames
    exact .load fun n hn => (hargs n hn).restrict fun name hname => hnames name ⟨n, hn, hname⟩
  | value h => exact .value (h.restrict hnames)
  | assign hop htarget hvalue =>
    exact .assign hop
      (htarget.restrict fun name hname => hnames name (List.mem_append_left _ hname))
      (hvalue.restrict fun name hname => hnames name (List.mem_append_right _ hname))

end Node

namespace Grammar

open Node

/-! ### Trees of derivations -/

/-- The trees of the grammar use no reserved names. -/
abbrev Free (name : String) : Prop := name ∉ reservedWords

/-- What the tree of a derivation is. -/
def Expresses : Category → Node → Prop
  | .value _, n => Expressible Free .value n
  | .argument, n => Expressible Free .argument n
  | .entry, n => Expressible Free .entry n
  | .members kind, n => ∃ nodes, n = .list {} nodes ∧ ∀ m ∈ nodes, Expressible Free kind.role m

theorem expresses_member {kind : Sequence} {n : Node} :
    Expresses kind.member n ↔ Expressible Free kind.role n := by
  cases kind <;> rfl

theorem mem_levels_of_mem_operators {k : Nat} {op : String} (h : op ∈ operators k) :
    op ∈ Operator.levels.flatten := by
  have hall : ∀ k < 7, ∀ op ∈ operators k, op ∈ Operator.levels.flatten := by decide
  match k with
  | 0 | 1 | 2 | 3 | 4 | 5 | 6 => exact hall _ (by decide) op h
  | k + 7 => exact absurd h List.not_mem_nil

/-- A sign is spelled as its kind says. -/
theorem value_mem_of_genuine {s : Symbol} (kinds : List TokenKind) {values : List String}
    (h : s.Genuine) (hkind : s.kind ∈ kinds)
    (hkinds : ∀ kind ∈ kinds,
      kind ∉ [TokenKind.identifier, .keyword, .number, .string, .comment, .newline])
    (hvalues : ∀ p ∈ Lexeme.signTexts, p.1 ∈ kinds → p.2 ∈ values) : s.value ∈ values :=
  hvalues _ (Lexeme.mem_signTexts_of_genuine h (hkinds _ hkind)) hkind

/-- **What is derived from lexemes is expressible.** -/
theorem Derives.expresses {c : Category} {ss : List Symbol} {n : Node} (h : Derives c ss n)
    (hss : ∀ s ∈ ss, s.Genuine) : Expresses c n := by
  induction h with
  | tighter _ ih => exact ih hss
  | operation _ _ hop _ ihx ihy =>
    simp only [List.forall_mem_append] at hss
    exact .binary (mem_levels_of_mem_operators hop) (ihx hss.1) (ihy hss.2.2)
  | negation _ ih => exact .unary (by decide) (ih (List.forall_mem_cons.mp hss).2)
  | sign hsign _ ih =>
    rw [List.forall_mem_cons] at hss
    refine .unary ?_ (ih hss.2)
    exact value_mem_of_genuine [.minus, .plus] hss.1 (by simpa using hsign) (by decide)
      (by decide)
  | member _ _ hname ih =>
    simp only [List.forall_mem_append, List.forall_mem_cons] at hss
    exact .member (ih hss.1) (Lexeme.isLexeme_of_genuine hss.2.2.1 hname (by decide))
  | call _ _ _ ih ihargs =>
    simp only [List.forall_mem_append, List.forall_mem_cons] at hss
    obtain ⟨nodes, heq, hnodes⟩ := ihargs hss.2.2
    cases heq
    exact .call (ih hss.1) hnodes
  | name hkind hfree =>
    exact .ident (Lexeme.isLexeme_of_genuine (hss _ List.mem_cons_self) hkind (by decide)) hfree
  | string _ _ => exact .string
  | number hkind =>
    exact .number (Lexeme.isLexeme_of_genuine (hss _ List.mem_cons_self) hkind (by decide))
  | list _ _ ih =>
    obtain ⟨nodes, heq, hnodes⟩ := ih (List.forall_mem_cons.mp hss).2
    cases heq
    exact .list hnodes
  | dict _ _ ih =>
    obtain ⟨nodes, heq, hnodes⟩ := ih (List.forall_mem_cons.mp hss).2
    cases heq
    exact .dict hnodes
  | parenthesised _ _ _ ih =>
    simp only [List.forall_mem_append, List.forall_mem_cons] at hss
    exact ih hss.2.1
  | positional _ ih => exact .positional (ih hss)
  | starred hstar _ ih =>
    rw [List.forall_mem_cons] at hss
    refine .starred ?_ (ih hss.2)
    exact value_mem_of_genuine [.star, .doubleStar] hss.1 (by simpa using hstar)
      (by decide) (by decide)
  | keyword hname _ _ ih =>
    simp only [List.forall_mem_cons] at hss
    exact .keyword (Lexeme.isLexeme_of_genuine hss.1 hname (by decide)) (ih hss.2.2)
  | entry _ _ _ ihkey ihvalue =>
    simp only [List.forall_mem_append, List.forall_mem_cons] at hss
    exact .entry (ihkey hss.1) (ihvalue hss.2.2)
  | close _ => exact ⟨[], rfl, by simp⟩
  | last _ _ ih =>
    simp only [List.forall_mem_append] at hss
    exact ⟨_, rfl, by simpa using expresses_member.mp (ih hss.1)⟩
  | more _ _ _ ih ihmore =>
    simp only [List.forall_mem_append, List.forall_mem_cons] at hss
    obtain ⟨nodes, heq, hnodes⟩ := ihmore hss.2.2
    cases heq
    exact ⟨_, rfl, List.forall_mem_cons.mpr ⟨expresses_member.mp (ih hss.1), hnodes⟩⟩

theorem LoadDerives.expressible {ss : List Symbol} {ns : List Node} (h : LoadDerives ss ns)
    (hss : ∀ s ∈ ss, s.Genuine) : ∀ n ∈ ns, Expressible Free .argument n := by
  induction h with
  | close _ => simp
  | closeBehindComma _ _ => simp
  | more _ h _ ih =>
    simp only [List.forall_mem_append, List.forall_mem_cons] at hss ⊢
    exact ⟨h.expresses hss.2.1, ih hss.2.2⟩

theorem StatementDerives.isStatement {ss : List Symbol} {n : Node} (h : StatementDerives ss n)
    (hss : ∀ s ∈ ss, s.Genuine) : IsStatement Free n := by
  cases h with
  | load _ _ _ hargs =>
    simp only [List.forall_mem_cons] at hss
    exact .load (hargs.expressible hss.2.2.2)
  | value h _ => exact .value (h.expresses hss)
  | assign hx hsign hy _ =>
    simp only [List.forall_mem_append, List.forall_mem_cons] at hss
    refine .assign ?_ (hx.expresses hss.1) (hy.expresses hss.2.2)
    exact value_mem_of_genuine [.equals, .plusEquals] hss.2.1 (by simpa using hsign)
      (by decide) (by decide)

theorem BlockDerives.isStatement {ss : List Symbol} {ns : List Node} (h : BlockDerives ss ns)
    (hss : ∀ s ∈ ss, s.Genuine) : ∀ n ∈ ns, IsStatement Free n := by
  induction h with
  | none => simp
  | last h => simpa using h.isStatement hss
  | more h _ _ _ ih =>
    simp only [List.forall_mem_append, List.forall_mem_cons] at hss ⊢
    exact ⟨h.isStatement hss.1, ih hss.2.2⟩

/-- **The statements of a file are expressible.** -/
theorem FileDerives.isStatement {ss : List Symbol} {ns : List Node} (h : FileDerives ss ns)
    (hss : ∀ s ∈ ss, s.kind ≠ .endOfFile → s.Genuine) : ∀ n ∈ ns, IsStatement Free n := by
  cases h with
  | mk _ hblock _ =>
    refine hblock.isStatement fun s hs => hss s ?_ (hblock.kind_ne_endOfFile s hs)
    simp [hs]

end Grammar

end StarlarkLint
