import StarlarkLint.Proofs.Grammar.Parentheses
import StarlarkLint.Proofs.Layout.Pieces

/-!
# Layouts of values derive their trees

Whatever the layout options are, as long as indentation is blank, the text of an expressible value
is read as symbols that derive the value again, at the strength that the layout counts for it.  That
is what the brackets are for: an operand gets them exactly if its own strength is less than the
grammar asks for in its place.

A value may look like the beginning of a load, though.  It does if the leftmost value that stands
without brackets is a call of the name `load`; how a text starts is therefore kept track of, up to
the statement.

## Main definitions

* `Node.opensLoad` — the text of a value or assignment starts like a load.
* `Printed` — what is known of the text of a value.
* `Written` — what is known of the text of an argument or an entry.

## Main results

* `Node.Expressible.laysOut` — expressible values are printed.
-/

namespace StarlarkLint

open Text Lexeme Grammar

/-! ### How texts start -/

namespace Node

/-- Whether a node stands without brackets where the given strength is asked for. -/
def standsFree (least : Nat) (node : Node) : Bool := least ≤ Strength.ofNode node

/-- Whether a node is the name `load`. -/
def isLoadName : Node → Bool
  | ident _ name => name = "load"
  | _ => false

/-- Whether the text of a value or an assignment starts with the name `load` and a parenthesis: the
leftmost value that stands without brackets is a call of this name. -/
def opensLoad : Node → Bool
  | member _ base _ => base.standsFree Strength.ofAtom && opensLoad base
  | call _ callee _ =>
    callee.isLoadName || (callee.standsFree Strength.ofAtom && opensLoad callee)
  | binary _ op left _ => left.standsFree ((Strength.ofBinary? op).getD 0) && opensLoad left
  | assign _ target _ _ => opensLoad target
  | _ => false

end Node

/-- The symbols are the name `load` alone. -/
def IsLoadName (ss : List Symbol) : Prop :=
  ∃ s, ss = [s] ∧ s.kind = .identifier ∧ s.value = "load"

theorem startsLoad_append {ss : List Symbol} {s : Symbol} {ts : List Symbol} (hss : ss ≠ []) :
    StartsLoad (ss ++ s :: ts) ↔ StartsLoad ss ∨ IsLoadName ss ∧ s.kind = .lparen := by
  match ss with
  | [] => exact absurd rfl hss
  | [u] => simp [StartsLoad, IsLoadName, and_assoc]
  | u :: v :: us => simp [StartsLoad, IsLoadName]

theorem not_startsLoad_of_kind {s : Symbol} {ss : List Symbol} (h : s.kind ≠ .identifier) :
    ¬ StartsLoad (s :: ss) := by
  cases ss with
  | nil => exact id
  | cons t ss => exact fun hstarts => h hstarts.1

theorem not_isLoadName_of_kind {s : Symbol} {ss : List Symbol} (h : s.kind ≠ .identifier) :
    ¬ IsLoadName (s :: ss) := by
  rintro ⟨t, heq, hkind, -⟩
  obtain ⟨rfl, -⟩ := List.cons.inj heq
  exact h hkind

theorem not_isLoadName_append {ss : List Symbol} {s : Symbol} {ts : List Symbol} (hss : ss ≠ []) :
    ¬ IsLoadName (ss ++ s :: ts) := by
  rintro ⟨t, heq, -⟩
  have hlength := congrArg List.length heq
  have hpos := List.length_pos_of_ne_nil hss
  simp only [List.length_append, List.length_cons, List.length_nil] at hlength
  omega

/-- The text goes on with no sign in front of it. -/
def StartsClear (text : List Char) : Prop := ∃ c cs, text = c :: cs ∧ c ≠ '=' ∧ c ≠ '*'

theorem StartsClear.append {xs : List Char} (h : StartsClear xs) (ys : List Char) :
    StartsClear (xs ++ ys) := by
  obtain ⟨c, cs, rfl, hc⟩ := h
  exact ⟨c, cs ++ ys, rfl, hc⟩

theorem startsClear_cons {c : Char} {cs : List Char} (h : c ≠ '=' ∧ c ≠ '*') :
    StartsClear (c :: cs) := ⟨c, cs, rfl, h⟩

theorem startsClear_of_isLexeme {kind : TokenKind} {text : String} (h : IsLexeme kind text)
    (hkind : kind ∈ [TokenKind.identifier, .keyword, .number]) : StartsClear text.toList := by
  obtain ⟨c, cs, htext, hc⟩ := h.head_cases hkind
  rw [htext]
  refine startsClear_cons ?_
  rcases hc with hc | rfl
  · refine ⟨?_, ?_⟩ <;>
      · rintro rfl
        exact hc (by decide)
  · decide

/-! ### The parentheses of sequences -/

theorem openings_closing (kind : Sequence) : openings [kind.closing] = 0 := by
  cases kind <;> rfl

theorem openings_commaInFront (sss : List (List Symbol)) :
    openings (sss.flatMap (comma :: ·)) = openings sss.flatten := by
  induction sss with
  | nil => rfl
  | cons ss sss ih =>
    rw [List.flatMap_cons, List.flatten_cons, openings_append, openings_append, ih,
      openings_cons_of_ne (by decide)]

theorem openings_commaBehind (sss : List (List Symbol)) :
    openings (sss.flatMap (· ++ [comma])) = openings sss.flatten := by
  induction sss with
  | nil => rfl
  | cons ss sss ih =>
    rw [List.flatMap_cons, List.flatten_cons, openings_append, openings_append, ih, openings_append]
    rfl

theorem openings_joined (sss : List (List Symbol)) :
    openings (joined sss) = openings sss.flatten := by
  cases sss with
  | nil => rfl
  | cons ss sss =>
    rw [joined, List.flatten_cons, openings_append, openings_append, openings_commaInFront]

/-! ### Texts of values -/

/-- What is known of a text of a value that stands where the given strength is asked for. -/
structure Printed (least : Nat) (node : Node) (text : String) (ss : List Symbol) : Prop where
  /-- It is read as the symbols. -/
  reads : Reads text.toList ss
  /-- It goes on with no sign in front of it. -/
  clear : StartsClear text.toList
  /-- The symbols derive the value. -/
  derives : Derives (.value least) ss node.bare
  /-- They look like a load if the value does and is not in brackets. -/
  opens : StartsLoad ss ↔ node.standsFree least = true ∧ node.opensLoad = true
  /-- They are the name `load` if the value is. -/
  named : IsLoadName ss ↔ node.isLoadName = true
  /-- They open the parentheses that the value needs in its place, and no others. -/
  opened : openings ss = node.openings + Strength.brackets least node

/-- What is known of a text of a sequence with its brackets. -/
structure SequencePrinted (kind : Sequence) (nodes : List Node) (text : String)
    (ss : List Symbol) : Prop where
  /-- It is read as the symbols behind the opening bracket. -/
  lexes : ∀ depth rest, Lexes depth (text.toList ++ rest) (kind.opening :: ss) depth rest
  /-- The symbols derive the members. -/
  derives : Derives (.members kind) ss (.list {} (Node.bareAll nodes))
  /-- It starts with the bracket. -/
  opens : ∃ cs, text.toList = kind.opening.value.toList ++ cs
  /-- Behind the bracket it opens the parentheses that the members need, and no others. -/
  opened : openings ss = Node.openingsAll nodes

namespace Printed

variable {least : Nat} {node : Node} {text : String} {ss : List Symbol}

theorem ne_nil (h : Printed least node text ss) : ss ≠ [] := by
  obtain ⟨s, ts, rfl, -⟩ := h.derives.startsValue
  exact List.cons_ne_nil s ts

theorem standsFree_self (node : Node) : node.standsFree (Strength.ofNode node) = true := by
  simp [Node.standsFree]

/-- A value that is not a name, a member or a call, and starts with no name. -/
theorem of_head {s : Symbol} (hreads : Reads text.toList (s :: ss))
    (hclear : StartsClear text.toList) (hderives : Derives (.value least) (s :: ss) node.bare)
    (hs : s.kind ≠ .identifier) (hopens : node.opensLoad = false)
    (hnamed : node.isLoadName = false)
    (hopenings : openings (s :: ss) = node.openings + Strength.brackets least node) :
    Printed least node text (s :: ss) where
  reads := hreads
  clear := hclear
  derives := hderives
  opens := by simp [hopens, not_startsLoad_of_kind hs]
  named := by simp [hnamed, not_isLoadName_of_kind hs]
  opened := hopenings

/-- An operand in its place, with brackets if it needs them. -/
theorem bracketed (h : Printed (Strength.ofNode node) node text ss) (hleast : least ≤ 8) :
    ∃ ss', Printed least node (bracketed least node text) ss' := by
  by_cases hfree : node.standsFree least = true
  · have hle : least ≤ Strength.ofNode node := by simpa [Node.standsFree] using hfree
    have htext : StarlarkLint.bracketed least node text = text := by
      rw [StarlarkLint.bracketed, if_neg (Nat.not_lt.mpr hle)]
    rw [htext]
    refine ⟨ss, h.reads, h.clear, h.derives.loosen hle, ?_, h.named, ?_⟩
    · rw [h.opens, standsFree_self, hfree]
    · rw [h.opened, Strength.brackets_eq_zero hle, Strength.brackets_eq_zero (Nat.le_refl _)]
  · have hlt : Strength.ofNode node < least := by simpa [Node.standsFree] using hfree
    have htext : StarlarkLint.bracketed least node text = "(" ++ text ++ ")" := by
      rw [StarlarkLint.bracketed, if_pos hlt]
    -- names are never put in brackets
    have hnamed : node.isLoadName = false := by
      cases node with
      | ident s name => exact absurd hlt (Nat.not_lt.mpr hleast)
      | _ => rfl
    have hderives : Derives (.value 8)
        (Sequence.arguments.opening :: (ss ++ [Sequence.arguments.closing])) node.bare :=
      .parenthesised rfl (h.derives.loosen (Nat.zero_le _)) rfl
    rw [htext]
    refine ⟨_, ?_, ?_, hderives.loosen hleast, ?_, ?_, ?_⟩
    · intro depth rest hrest
      have hinner := (h.reads (depth + 1) _ (separate_closing .arguments rest)).trans
        (lexes_closing .arguments depth rest)
      have houter := (lexes_opening .arguments depth _).trans hinner
      simpa [Sequence.opening, Sequence.closing] using houter
    · simpa using startsClear_cons (c := '(') (by decide)
    · simp [hfree, not_startsLoad_of_kind (s := Sequence.arguments.opening) (by decide)]
    · simp [hnamed, not_isLoadName_of_kind (s := Sequence.arguments.opening) (by decide)]
    · rw [openings_cons_of_eq rfl, openings_append, h.opened, Strength.brackets_eq_one hlt,
        Strength.brackets_eq_zero (Nat.le_refl _)]
      rfl

/-! ### One lemma for each kind of value -/

theorem ident {s : Span} {name : String} (hname : IsLexeme .identifier name)
    (hfree : name ∉ reservedWords) : Printed 8 (.ident s name) name [⟨.identifier, name⟩] where
  reads := reads_of_isLexeme hname (by decide)
  clear := startsClear_of_isLexeme hname (by decide)
  derives := .name rfl hfree
  opens := by simp [StartsLoad, Node.opensLoad]
  named := by simp [IsLoadName, Node.isLoadName]
  opened := rfl

theorem string {s : Span} (value : String) :
    Printed 8 (.string s value) (Literal.written value) [⟨.string, value⟩] := by
  refine of_head (reads_written value) ?_ ?_ (by simp) rfl rfl rfl
  · simpa [Literal.written] using startsClear_cons (c := '"') (by decide)
  · have hstring : Derives (.value 8) [⟨.string, value⟩] (.string {} (String.join [value])) :=
      .string rfl (by simp)
    simpa [Node.bare] using hstring

theorem number {s : Span} {value : String} (hvalue : IsLexeme .number value) :
    Printed 8 (.number s value) value [⟨.number, value⟩] :=
  of_head (reads_of_isLexeme hvalue (by decide)) (startsClear_of_isLexeme hvalue (by decide))
    (.number rfl) (by simp) rfl rfl rfl

/-- A dot and a name behind a value. -/
theorem member {s : Span} {base : Node} {name : String} (h : Printed 8 base text ss)
    (hname : IsLexeme .identifier name) : Printed 8 (.member s base name) (text ++ "." ++ name)
      (ss ++ [⟨.dot, "."⟩, ⟨.identifier, name⟩]) where
  reads := by
    intro depth rest hrest
    obtain ⟨c, cs, hhead, hstart⟩ := hname.head_isWordStart
    -- no number goes on with the dot, since no name starts with a digit
    have hdigit : ∀ d ∈ (name.toList ++ rest).head?, isDigit d = false := by
      simpa [hhead] using isDigit_eq_false_of_isWordStart hstart
    have hdot : Lexes depth ('.' :: (name.toList ++ rest)) [⟨.dot, "."⟩] depth
        (name.toList ++ rest) :=
      lexes_heads (heads_char rfl fun _ => hdigit) (by decide) depth
    have hsep : Separate ('.' :: (name.toList ++ rest)) :=
      separate_cons (by decide) (by decide) fun _ => hdigit
    have hbase := h.reads depth _ hsep
    have hwhole := hbase.trans (hdot.trans (reads_of_isLexeme hname (by decide) depth rest hrest))
    simpa using hwhole
  clear := by
    rw [String.toList_append, String.toList_append]
    exact (h.clear.append _).append _
  derives := h.derives.member rfl rfl
  opens := by
    have hfree : (Node.member s base name).standsFree 8 = true := rfl
    rw [startsLoad_append h.ne_nil, h.opens, hfree]
    simp [Node.opensLoad, Strength.ofAtom_eq]
  named := by simp [not_isLoadName_append h.ne_nil, Node.isLoadName]
  opened := by
    rw [openings_append, h.opened]
    rfl

/-- Arguments in parentheses behind a value. -/
theorem call {s : Span} {callee : Node} {args : List Node} {argsText : String}
    {as : List Symbol} (h : Printed 8 callee text ss)
    (hargs : SequencePrinted .arguments args argsText as) :
    Printed 8 (.call s callee args) (text ++ argsText)
      (ss ++ Sequence.arguments.opening :: as) where
  reads := by
    intro depth rest _
    obtain ⟨cs, hcs⟩ := hargs.opens
    have hsep : Separate (argsText.toList ++ rest) := by
      rw [hcs]
      exact separate_mark (by decide) (by decide) _
    simpa using (h.reads depth _ hsep).trans (hargs.lexes depth rest)
  clear := by
    rw [String.toList_append]
    exact h.clear.append _
  derives := h.derives.call rfl hargs.derives
  opens := by
    have hfree : (Node.call s callee args).standsFree 8 = true := rfl
    rw [startsLoad_append h.ne_nil, h.opens, h.named, hfree]
    simp [Node.opensLoad, Strength.ofAtom_eq, Sequence.opening, or_comm]
  named := by simp [not_isLoadName_append h.ne_nil, Node.isLoadName]
  opened := by
    have hself : Strength.brackets 8 (.call s callee args) = 0 := rfl
    rw [openings_append, openings_cons_of_eq rfl, h.opened, hargs.opened, Node.openings, hself,
      Strength.ofAtom_eq]
    omega

/-- A list or a dictionary. -/
theorem of_sequence {kind : Sequence} {nodes : List Node} {as : List Symbol}
    (h : SequencePrinted kind nodes text as)
    (hnode : Derives (.value 8) (kind.opening :: as) node.bare) (hkind : kind ≠ .arguments)
    (hopens : node.opensLoad = false) (hnamed : node.isLoadName = false)
    (hopenings : node.openings + Strength.brackets 8 node = Node.openingsAll nodes) :
    Printed 8 node text (kind.opening :: as) := by
  refine of_head (fun depth rest _ => h.lexes depth rest) ?_ hnode ?_ hopens hnamed ?_
  · obtain ⟨cs, hcs⟩ := h.opens
    rw [hcs]
    cases kind <;> exact startsClear_cons (by decide)
  · cases kind <;> decide
  · have hparen : kind.opening.kind ≠ .lparen := by cases kind <;> simp_all [Sequence.opening]
    rw [openings_cons_of_ne hparen, h.opened, hopenings]

/-- A sign, or a star, in front of a value. -/
theorem reads_signed (kind : TokenKind) (op : String)
    (hop : (kind, op) ∈ [(TokenKind.minus, "-"), (.plus, "+"), (.star, "*"), (.doubleStar, "**")])
    (hclear : StartsClear text.toList) (hreads : Reads text.toList ss) :
    Reads (op ++ text).toList (⟨kind, op⟩ :: ss) := by
  intro depth rest hrest
  obtain ⟨c, cs, htext, hequals, hstar⟩ := hclear
  have hsign : Lexes depth (op.toList ++ (text.toList ++ rest)) [⟨kind, op⟩] depth
      (text.toList ++ rest) := by
    simp only [List.mem_cons, List.not_mem_nil, or_false, Prod.mk.injEq] at hop
    rcases hop with ⟨rfl, rfl⟩ | ⟨rfl, rfl⟩ | ⟨rfl, rfl⟩ | ⟨rfl, rfl⟩
    · exact lexes_heads (heads_char (c := '-') rfl (fun h => by cases h)) (by decide) depth
    · have hheads : Heads "+".toList ⟨.plus, "+"⟩ (text.toList ++ rest) :=
        ⟨'+', [], _, rfl, read_sign (by simp [sign?, htext, hequals]; rfl), rfl, rfl⟩
      exact lexes_heads hheads (by decide) depth
    · have hheads : Heads "*".toList ⟨.star, "*"⟩ (text.toList ++ rest) :=
        ⟨'*', [], _, rfl, read_sign (by simp [sign?, htext, hstar]; rfl), rfl, rfl⟩
      exact lexes_heads hheads (by decide) depth
    · have hheads : Heads "**".toList ⟨.doubleStar, "**"⟩ (text.toList ++ rest) :=
        ⟨'*', ['*'], _, rfl, rfl, rfl, rfl⟩
      exact lexes_heads hheads (by decide) depth
  have hwhole := hsign.trans (hreads depth rest hrest)
  simpa using hwhole

/-- A sign in front of a value. -/
theorem sign {s : Span} {operand : Node} (op : String) (hop : op ∈ ["-", "+"])
    (h : Printed 7 operand text ss) : ∃ ss', Printed 7 (.unary s op operand) (op ++ text) ss' := by
  have hkind : ∃ kind, (kind = .minus ∨ kind = .plus) ∧ (kind, op) ∈
      [(TokenKind.minus, "-"), (.plus, "+"), (.star, "*"), (.doubleStar, "**")] ∧
      StartsClear op.toList := by
    simp only [List.mem_cons, List.not_mem_nil, or_false] at hop
    rcases hop with rfl | rfl
    · exact ⟨.minus, .inl rfl, by decide, startsClear_cons (by decide)⟩
    · exact ⟨.plus, .inr rfl, by decide, startsClear_cons (by decide)⟩
  obtain ⟨kind, hsign, hmem, hclear⟩ := hkind
  refine ⟨⟨kind, op⟩ :: ss, of_head (reads_signed kind op hmem h.clear h.reads) ?_
    (.sign (s := ⟨kind, op⟩) hsign h.derives) ?_ rfl rfl ?_⟩
  · rw [String.toList_append]
    exact hclear.append _
  · rcases hsign with rfl | rfl <;> simp
  · have hstrength : ∀ op ∈ ["-", "+"], Strength.ofUnary op = 7 := by decide
    have hself : Strength.brackets 7 (.unary s op operand) = 0 :=
      Strength.brackets_eq_zero (Nat.le_of_eq (hstrength op hop).symm)
    have hparen : kind ≠ .lparen := by rcases hsign with rfl | rfl <;> decide
    rw [openings_cons_of_ne (s := ⟨kind, op⟩) hparen, h.opened, Node.openings, hstrength op hop,
      hself]
    rfl

/-- The prefix `not` in front of a value. -/
theorem negation {s : Span} {operand : Node} (h : Printed 2 operand text ss) :
    Printed 2 (.unary s "not" operand) ("not" ++ " " ++ text) (⟨.keyword, "not"⟩ :: ss) := by
  refine of_head ?_ ?_ (.negation h.derives) (by decide) rfl rfl h.opened
  · intro depth rest hrest
    have hnot := reads_keyword "not" (by decide) depth (' ' :: (text.toList ++ rest))
      (separate_mark (by decide) (by decide) _)
    have hwhole := hnot.trans ((lexes_blank (.inl rfl) depth _).trans (h.reads depth rest hrest))
    simpa using hwhole
  · simpa using startsClear_cons (c := 'n') (by decide)

/-- An operator between two values. -/
theorem binary {s : Span} {op x y : String} {left right : Node} {k : Nat} {xs ys : List Symbol}
    (hop : op ∈ Operator.levels.flatten) (hk : Strength.ofBinary? op = some k)
    (hmem : op ∈ operators k) (hleft : Printed k left x xs) (hright : Printed (k + 1) right y ys) :
    ∃ ss', Printed k (.binary s op left right) (x ++ " " ++ op ++ " " ++ y) ss' := by
  obtain ⟨os, hspells, hlexes⟩ := lexes_operator hop
  refine ⟨xs ++ (os ++ ys), ?_, ?_, hleft.derives.operation hspells hmem hright.derives, ?_, ?_,
    ?_⟩
  · intro depth rest hrest
    have hblank := lexes_blank (c := ' ') (.inl rfl) depth
    have hbehind := (hlexes depth _).trans ((hblank _).trans (hright.reads depth rest hrest))
    have hsep := separate_mark (c := ' ') (by decide) (by decide)
    have hwhole := (hleft.reads depth _ (hsep _)).trans ((hblank _).trans hbehind)
    simpa using hwhole
  · simp only [String.toList_append]
    exact (((hleft.clear.append _).append _).append _).append _
  · obtain ⟨o, ts, rfl, hkind⟩ := hspells.kind_mem
    have hparen : o.kind ≠ .lparen := by
      intro heq
      rw [heq] at hkind
      exact absurd hkind (by decide)
    have hfree : (Node.binary s op left right).standsFree k = true := by
      simp [Node.standsFree, Strength.ofNode, hk]
    rw [List.cons_append, startsLoad_append hleft.ne_nil, hleft.opens, hfree]
    simp [Node.opensLoad, hk, hparen]
  · obtain ⟨o, ts, rfl, -⟩ := hspells.kind_mem
    simp [not_isLoadName_append hleft.ne_nil, Node.isLoadName]
  · have hself : Strength.brackets k (.binary s op left right) = 0 :=
      Strength.brackets_eq_zero (by simp [Strength.ofNode, hk])
    simp only [openings_append, hspells.openings_eq_zero, hleft.opened, hright.opened,
      Node.openings, hk, Option.getD_some, hself]
    omega

end Printed

/-! ### Every expressible tree is printed -/

/-- At every level the node has a text that is read as symbols that derive it. -/
def Renders (options : LayoutOptions) (c : Category) (node : Node) : Prop :=
  ∀ level, ∃ text ss, node.render options level = .ok text ∧ Reads text.toList ss ∧
    Derives c ss node.bare

/-- What is known of a text of a node that stands where the grammar has the category. -/
structure Written (c : Category) (node : Node) (text : String) (ss : List Symbol) : Prop where
  /-- It is read as the symbols. -/
  reads : Reads text.toList ss
  /-- The symbols derive the node. -/
  derives : Derives c ss node.bare
  /-- They open the parentheses that the node needs, and no others. -/
  opened : openings ss = node.openings

/-- At every level the node has a text that is known. -/
def Writes (options : LayoutOptions) (c : Category) (node : Node) : Prop :=
  ∀ level, ∃ text ss, node.render options level = .ok text ∧ Written c node text ss

/-- At every level the value has a text, of which more is known. -/
def Prints (options : LayoutOptions) (node : Node) : Prop :=
  ∀ level, ∃ text ss, node.render options level = .ok text ∧
    Printed (Strength.ofNode node) node text ss

/-- What is known of the texts of a node in a place. -/
def LaysOut (options : LayoutOptions) : Role → Node → Prop
  | .value, node => Prints options node
  | .argument, node => Writes options .argument node
  | .entry, node => Writes options .entry node

section

variable {options : LayoutOptions}

/-- A value as an operand. -/
theorem Prints.operand {node : Node} (h : Prints options node) (least : Nat)
    (hleast : least ≤ 8) (level : Nat) : ∃ text ss, node.render options level = .ok text ∧
      Printed least node (bracketed least node text) ss := by
  obtain ⟨text, ss, htext, hprinted⟩ := h level
  obtain ⟨ss', hprinted'⟩ := hprinted.bracketed hleast
  exact ⟨text, ss', htext, hprinted'⟩

theorem Prints.renders {node : Node} (h : Prints options node) :
    Renders options (.value 0) node := by
  intro level
  obtain ⟨text, ss, htext, hprinted⟩ := h level
  exact ⟨text, ss, htext, hprinted.reads, hprinted.derives.loosen (Nat.zero_le _)⟩

theorem Prints.writes {node : Node} (h : Prints options node) : Writes options (.value 0) node := by
  intro level
  obtain ⟨text, ss, htext, hprinted⟩ := h level
  refine ⟨text, ss, htext, hprinted.reads, hprinted.derives.loosen (Nat.zero_le _), ?_⟩
  rw [hprinted.opened, Strength.brackets_eq_zero (Nat.le_refl _), Nat.add_zero]

theorem LaysOut.writes {role : Role} {node : Node} (h : LaysOut options role node) :
    Writes options role.category node := by
  cases role with
  | value => exact Prints.writes h
  | argument => exact h
  | entry => exact h

/-- The nodes in a sequence have texts one by one. -/
theorem renderAll_of_writes {c : Category} {nodes : List Node}
    (h : ∀ node ∈ nodes, Writes options c node) (level : Nat) :
    ∃ texts sss, Node.renderAll options level nodes = .ok texts ∧ ReadsAll texts sss ∧
      DerivesAll c sss (Node.bareAll nodes) ∧ openings sss.flatten = Node.openingsAll nodes := by
  induction nodes with
  | nil => exact ⟨[], [], rfl, .nil, .nil, rfl⟩
  | cons node nodes ih =>
    rw [List.forall_mem_cons] at h
    obtain ⟨text, ss, htext, hwritten⟩ := h.1 level
    obtain ⟨texts, sss, htexts, hreadsAll, hderivesAll, hopenings⟩ := ih h.2
    refine ⟨text :: texts, ss :: sss, ?_, .cons hwritten.reads hreadsAll,
      .cons hwritten.derives hderivesAll, ?_⟩
    · rw [Node.renderAll, htext, htexts]
      rfl
    · rw [List.flatten_cons, openings_append, hwritten.opened, hopenings, Node.openingsAll]

theorem writes_member {kind : Sequence} {nodes : List Node}
    (h : ∀ node ∈ nodes, LaysOut options kind.role node) :
    ∀ node ∈ nodes, Writes options kind.member node := by
  intro node hnode
  rw [Sequence.member_eq_category]
  exact (h node hnode).writes

/-- Members on one line. -/
theorem sequencePrinted_inline (kind : Sequence) {nodes : List Node}
    (h : ∀ node ∈ nodes, LaysOut options kind.role node) (level : Nat) :
    ∃ texts ss, Node.renderAll options level nodes = .ok texts ∧ SequencePrinted kind nodes
      (kind.opening.value ++ ", ".intercalate texts ++ kind.closing.value) ss := by
  obtain ⟨texts, sss, htexts, hreads, hderives, hopenings⟩ :=
    renderAll_of_writes (writes_member h) level
  refine ⟨texts, _, htexts, fun depth rest => lexes_inline hreads kind depth rest,
    derives_inline hderives, ?_, ?_⟩
  · simp
  · rw [openings_append, openings_joined, hopenings, openings_closing, Nat.add_zero]

/-- Members one to a line. -/
theorem sequencePrinted_stacked (hindent : ∀ c ∈ options.indent.toList, c = ' ' ∨ c = '\t')
    (kind : Sequence) {nodes : List Node}
    (h : ∀ node ∈ nodes, LaysOut options kind.role node) (level : Nat) :
    ∃ texts ss, Node.renderAll options (level + 1) nodes = .ok texts ∧ SequencePrinted kind nodes
      (options.stacked level kind.opening.value kind.closing.value texts) ss := by
  obtain ⟨texts, sss, htexts, hreads, hderives, hopenings⟩ :=
    renderAll_of_writes (writes_member h) (level + 1)
  refine ⟨texts, _, htexts, fun depth rest => lexes_stacked hindent hreads kind level depth rest,
    derives_stacked hderives, toList_stacked level kind.opening.value kind.closing.value texts, ?_⟩
  rw [openings_append, openings_commaBehind, hopenings, openings_closing, Nat.add_zero]

variable (hindent : ∀ c ∈ options.indent.toList, c = ' ' ∨ c = '\t')
include hindent

theorem prints_list {s : Span} {items : List Node} (h : ∀ n ∈ items, Prints options n) :
    Prints options (.list s items) := by
  intro level
  rw [Node.render]
  split
  · obtain ⟨texts, ss, htexts, hprinted⟩ := sequencePrinted_inline .items h level
    rw [htexts]
    exact ⟨_, _, rfl, .of_sequence hprinted (.list rfl hprinted.derives) (by decide) rfl rfl rfl⟩
  · obtain ⟨texts, ss, htexts, hprinted⟩ :=
      sequencePrinted_stacked hindent .items h level
    rw [htexts]
    exact ⟨_, _, rfl, .of_sequence hprinted (.list rfl hprinted.derives) (by decide) rfl rfl rfl⟩

theorem prints_dict {s : Span} {entries : List Node} (h : ∀ n ∈ entries, LaysOut options .entry n) :
    Prints options (.dict s entries) := by
  intro level
  obtain ⟨texts, ss, htexts, hprinted⟩ :=
    sequencePrinted_stacked hindent .entries h level
  rw [Node.render, htexts]
  exact ⟨_, _, rfl, .of_sequence hprinted (.dict rfl hprinted.derives) (by decide) rfl rfl rfl⟩

theorem prints_call {s : Span} {callee : Node} {args : List Node} (h : Prints options callee)
    (hargs : ∀ n ∈ args, LaysOut options .argument n) : Prints options (.call s callee args) := by
  intro level
  obtain ⟨name, ss, hname, hcallee⟩ := h.operand 8 (Nat.le_refl 8) level
  obtain ⟨texts, as, htexts, hprinted⟩ := sequencePrinted_inline .arguments hargs level
  obtain ⟨below, bs, hbelow, hstacked⟩ :=
    sequencePrinted_stacked hindent .arguments hargs level
  rw [Node.render, hname, htexts, hbelow]
  dsimp only [bind, Except.bind]
  split
  · have hline := hcallee.call (s := s) hprinted
    rw [← String.append_assoc, ← String.append_assoc] at hline
    exact ⟨_, _, rfl, hline⟩
  · exact ⟨_, _, rfl, hcallee.call hstacked⟩

omit hindent in
theorem prints_unary {s : Span} {op : String} {operand : Node} (hop : op ∈ ["-", "+", "not"])
    (h : Prints options operand) : Prints options (.unary s op operand) := by
  intro level
  simp only [List.mem_cons, List.not_mem_nil, or_false] at hop
  rcases hop with rfl | rfl | rfl
  · obtain ⟨text, ss, htext, hprinted⟩ := h.operand 7 (by decide) level
    obtain ⟨ss', hsign⟩ := Printed.sign (s := s) "-" (by decide) hprinted
    exact ⟨_, ss', by rw [Node.render, htext]; rfl, hsign⟩
  · obtain ⟨text, ss, htext, hprinted⟩ := h.operand 7 (by decide) level
    obtain ⟨ss', hsign⟩ := Printed.sign (s := s) "+" (by decide) hprinted
    exact ⟨_, ss', by rw [Node.render, htext]; rfl, hsign⟩
  · obtain ⟨text, ss, htext, hprinted⟩ := h.operand 2 (by decide) level
    exact ⟨_, _, by rw [Node.render, htext]; rfl, hprinted.negation⟩

omit hindent in
theorem prints_binary {s : Span} {op : String} {left right : Node}
    (hop : op ∈ Operator.levels.flatten) (hleft : Prints options left)
    (hright : Prints options right) : Prints options (.binary s op left right) := by
  intro level
  have hcases : ∀ op ∈ Operator.levels.flatten, ∃ k ∈ [0, 1, 3, 4, 5, 6],
      Strength.ofBinary? op = some k ∧ op ∈ operators k := by decide
  obtain ⟨k, hk, hstrength, hmem⟩ := hcases op hop
  have hle : k + 1 ≤ 8 := by
    have hall : ∀ k ∈ [0, 1, 3, 4, 5, 6], k + 1 ≤ 8 := by decide
    exact hall k hk
  obtain ⟨x, xs, hx, hxprinted⟩ := hleft.operand k (by omega) level
  obtain ⟨y, ys, hy, hyprinted⟩ := hright.operand (k + 1) hle level
  obtain ⟨ss, hprinted⟩ := Printed.binary (s := s) hop hstrength hmem hxprinted hyprinted
  have hself : Strength.ofNode (.binary s op left right) = k := by
    simp [Strength.ofNode, hstrength]
  rw [hself]
  refine ⟨_, ss, ?_, hprinted⟩
  rw [Node.render, hstrength]
  dsimp only
  rw [hx, hy]
  rfl

/-- **Every expressible tree is printed**, in every layout and at every level. -/
theorem Node.Expressible.laysOut {role : Role} {node : Node} (h : Expressible Free role node) :
    LaysOut options role node := by
  induction h with
  | ident hname hfree => exact fun level => ⟨_, _, rfl, .ident hname hfree⟩
  | string => exact fun level => ⟨_, _, rfl, .string _⟩
  | number hvalue => exact fun level => ⟨_, _, rfl, .number hvalue⟩
  | list _ ih => exact prints_list hindent ih
  | dict _ ih => exact prints_dict hindent ih
  | member _ hname ih =>
    intro level
    obtain ⟨text, ss, htext, hprinted⟩ := ih.operand 8 (Nat.le_refl 8) level
    exact ⟨_, _, by rw [Node.render, htext]; rfl, hprinted.member hname⟩
  | call _ _ ih ihargs => exact prints_call hindent ih ihargs
  | unary hop _ ih => exact prints_unary hop ih
  | binary hop _ _ ihleft ihright => exact prints_binary hop ihleft ihright
  | positional _ ih =>
    intro level
    obtain ⟨text, ss, htext, hwritten⟩ := Prints.writes ih level
    exact ⟨text, ss, htext, hwritten.reads, .positional hwritten.derives, hwritten.opened⟩
  | @starred s op operand hop _ ih =>
    intro level
    obtain ⟨text, ss, htext, hprinted⟩ := ih.operand 0 (Nat.zero_le 8) level
    have hopenings := hprinted.opened
    simp only [List.mem_cons, List.not_mem_nil, or_false] at hop
    rcases hop with rfl | rfl
    · exact ⟨_, _, by rw [Node.render, htext]; rfl,
        Printed.reads_signed .star "*" (by decide) hprinted.clear hprinted.reads,
        .starred (.inl rfl) hprinted.derives, hopenings⟩
    · exact ⟨_, _, by rw [Node.render, htext]; rfl,
        Printed.reads_signed .doubleStar "**" (by decide) hprinted.clear hprinted.reads,
        .starred (.inr rfl) hprinted.derives, hopenings⟩
  | @keyword s s' name value hname _ ih =>
    intro level
    obtain ⟨text, ss, htext, hwritten⟩ := Prints.writes ih level
    have hkeyword : Derives .argument (⟨.identifier, name⟩ :: ⟨.equals, "="⟩ :: ss)
        (.assign {} (.ident {} name) "=" value.bare) := .keyword rfl rfl hwritten.derives
    refine ⟨_, _, by rw [Node.render, Node.render, htext]; rfl, ?_, hkeyword, ?_⟩
    · exact reads_assignment (by decide) (reads_of_isLexeme hname (by decide)) hwritten.reads
    · simpa [Node.openings] using hwritten.opened
  | @entry s key value _ _ ihkey ihvalue =>
    intro level
    obtain ⟨x, xs, hx, hxwritten⟩ := Prints.writes ihkey level
    obtain ⟨y, ys, hy, hywritten⟩ := Prints.writes ihvalue level
    have hentry : Derives .entry (xs ++ ⟨.colon, ":"⟩ :: ys) (.entry {} key.bare value.bare) :=
      .entry hxwritten.derives rfl hywritten.derives
    refine ⟨_, _, by rw [Node.render, hx, hy]; rfl, ?_, hentry, ?_⟩
    · intro depth rest hrest
      have hkey := hxwritten.reads depth (':' :: ' ' :: (y.toList ++ rest))
        (separate_mark (by decide) (by decide) _)
      have hcolon := (lexes_char (c := ':') rfl (by decide) depth _).trans
        ((lexes_blank (.inl rfl) depth _).trans (hywritten.reads depth rest hrest))
      simpa using hkey.trans hcolon
    · simp [Node.openings, hxwritten.opened, hywritten.opened]

end

end StarlarkLint
