import StarlarkLint.Layout.Render
import StarlarkLint.Proofs.Node.Expressible

/-!
# The parentheses that a tree needs

Parentheses leave no node behind, and yet a text cannot do without some of them.  A call and a load
open one each.  An operand opens one if it binds more loosely than its place asks for, because the
only derivation of a value that is stronger than the value itself puts it in parentheses.

So the number of parentheses that a tree needs is a function of the tree, and every list of symbols
that derives the tree opens at least as many.

## Main definitions

* `Grammar.openings` — the parentheses that symbols open.
* `Node.openings` — the parentheses that a tree needs.

## Main results

* `Grammar.Derives.openings_le`, `Grammar.FileDerives.openings_le` — no derivation opens fewer
  parentheses than the tree needs.
-/

namespace StarlarkLint

/-! ### Trees -/

/-- The parentheses around a node where the given strength is asked for: one pair, if it binds more
loosely. -/
def Strength.brackets (least : Nat) (node : Node) : Nat :=
  if Strength.ofNode node < least then 1 else 0

namespace Node

open Strength

mutual

/-- The parentheses that the text of a node has to open, those around the node apart. -/
def openings : Node → Nat
  | hole => 0
  | ident _ _ => 0
  | string _ _ => 0
  | number _ _ => 0
  | list _ items => openingsAll items
  | dict _ entries => openingsAll entries
  | entry _ key value => openings key + openings value
  | member _ base _ => openings base + brackets ofAtom base
  | call _ callee args => openings callee + brackets ofAtom callee + 1 + openingsAll args
  | unary _ op operand => openings operand + brackets (ofUnary op) operand
  | binary _ op left right =>
    let strength := (ofBinary? op).getD 0
    openings left + brackets strength left + (openings right + brackets (strength + 1) right)
  | assign _ target _ value => openings target + openings value
  | load _ module args => openings module + 1 + openingsAll args
  | file _ _ _ statements => openingsAll statements

/-- The parentheses that the texts of the nodes in a sequence have to open. -/
def openingsAll : List Node → Nat
  | [] => 0
  | node :: nodes => openings node + openingsAll nodes

end

end Node

namespace Strength

variable {least : Nat} {node : Node}

theorem brackets_eq_zero (h : least ≤ ofNode node) : brackets least node = 0 :=
  if_neg (Nat.not_lt.mpr h)

theorem brackets_eq_one (h : ofNode node < least) : brackets least node = 1 := if_pos h

theorem brackets_le_one : brackets least node ≤ 1 := by
  unfold brackets
  split <;> simp

theorem ofAtom_eq : ofAtom = 8 := rfl

@[simp] theorem brackets_zero : brackets 0 node = 0 := brackets_eq_zero (Nat.zero_le _)

/-- A place that asks for less needs no more parentheses. -/
theorem brackets_mono {j k : Nat} (h : j ≤ k) : brackets j node ≤ brackets k node := by
  by_cases hlt : ofNode node < k
  · rw [brackets_eq_one hlt]
    exact brackets_le_one
  · rw [brackets_eq_zero (Nat.le_trans h (Nat.not_lt.mp hlt))]
    exact Nat.zero_le _

@[simp] theorem ofNode_bare (node : Node) : ofNode node.bare = ofNode node := by
  cases node <;> rfl

@[simp] theorem brackets_bare (least : Nat) (node : Node) :
    brackets least node.bare = brackets least node := by
  rw [brackets, ofNode_bare, brackets]

theorem ofBinary?_of_mem_operators {k : Nat} {op : String} (h : op ∈ Grammar.operators k) :
    ofBinary? op = some k := by
  have hall : ∀ k < 7, ∀ op ∈ Grammar.operators k, ofBinary? op = some k := by decide
  match k with
  | 0 | 1 | 2 | 3 | 4 | 5 | 6 => exact hall _ (by decide) op h
  | k + 7 => exact absurd h List.not_mem_nil

end Strength

namespace Node

mutual

/-- Spans make no difference to the parentheses that a tree needs. -/
theorem openings_bare : ∀ node : Node, node.bare.openings = node.openings
  | hole => rfl
  | ident _ _ => rfl
  | string _ _ => rfl
  | number _ _ => rfl
  | list _ items => openingsAll_bareAll items
  | dict _ entries => openingsAll_bareAll entries
  | entry _ key value => by simp only [bare, openings, openings_bare key, openings_bare value]
  | member _ base _ => by simp only [bare, openings, openings_bare base, Strength.brackets_bare]
  | call _ callee args => by
    simp only [bare, openings, openings_bare callee, openingsAll_bareAll args,
      Strength.brackets_bare]
  | unary _ _ operand => by
    simp only [bare, openings, openings_bare operand, Strength.brackets_bare]
  | binary _ _ left right => by
    simp only [bare, openings, openings_bare left, openings_bare right, Strength.brackets_bare]
  | assign _ target _ value => by
    simp only [bare, openings, openings_bare target, openings_bare value]
  | load _ module args => by
    simp only [bare, openings, openings_bare module, openingsAll_bareAll args]
  | file _ _ _ statements => openingsAll_bareAll statements

theorem openingsAll_bareAll : ∀ nodes : List Node,
    openingsAll (bareAll nodes) = openingsAll nodes
  | [] => rfl
  | node :: nodes => by
    simp only [bareAll, openingsAll, openings_bare node, openingsAll_bareAll nodes]

end

end Node

/-! ### Derivations -/

namespace Grammar

open Strength

/-- The parentheses that symbols open. -/
def openings (ss : List Symbol) : Nat := ss.countP (·.kind = .lparen)

section

variable {s : Symbol} {ss ts : List Symbol}

@[simp] theorem openings_nil : openings [] = 0 := rfl

@[simp] theorem openings_append : openings (ss ++ ts) = openings ss + openings ts :=
  List.countP_append

theorem openings_cons_of_eq (h : s.kind = .lparen) : openings (s :: ss) = openings ss + 1 :=
  List.countP_cons_of_pos (by simpa using h)

@[simp] theorem openings_cons_of_ne (h : s.kind ≠ .lparen) : openings (s :: ss) = openings ss :=
  List.countP_cons_of_neg (by simpa using h)

theorem openings_le_cons : openings ss ≤ openings (s :: ss) :=
  (List.sublist_cons_self s ss).countP_le

end

theorem Spells.openings_eq_zero {os : List Symbol} {op : String} (h : Spells os op) :
    openings os = 0 := by
  cases h with
  | @sign s hsign =>
    have hall : ∀ s ∈ signs, s.kind ≠ .lparen := by decide
    simp [hall s hsign]
  | word hkind _ => simp [hkind]
  | notIn => rfl

/-- The parentheses that have to be opened where a node is asked for. -/
def Category.openings : Category → Node → Nat
  | value strength, n => n.openings + brackets strength n
  | _, n => n.openings

theorem Category.openings_le {c : Category} {n : Node} : n.openings ≤ c.openings n := by
  cases c with
  | value strength => exact Nat.le_add_right _ _
  | _ => exact Nat.le_refl _

/-- **No derivation opens fewer parentheses than the tree needs.** -/
theorem Derives.openings_le {c : Category} {ss : List Symbol} {n : Node} (h : Derives c ss n)
    (hss : ∀ s ∈ ss, s.Genuine) : c.openings n ≤ openings ss := by
  induction h with
  | @tighter k ss n _ ih =>
    have hmono : brackets k n ≤ brackets (k + 1) n := brackets_mono (Nat.le_succ k)
    have ih := ih hss
    simp only [Category.openings] at ih ⊢
    omega
  | @operation k xs os ys x y op _ _ hop _ ihx ihy =>
    simp only [List.forall_mem_append] at hss
    have hk := ofBinary?_of_mem_operators hop
    have hself : brackets k (.binary {} op x y) = 0 :=
      brackets_eq_zero (by simp [Strength.ofNode, hk])
    have ihx := ihx hss.1
    have ihy := ihy hss.2.2
    simp only [Category.openings, Node.openings, hk, Option.getD_some, hself, openings_append]
      at ihx ihy ⊢
    omega
  | @negation ss n _ ih =>
    have ih := ih (List.forall_mem_cons.mp hss).2
    have hself : brackets 2 (.unary {} "not" n) = 0 := brackets_eq_zero (Nat.le_refl 2)
    have hnot : ofUnary "not" = 2 := rfl
    simpa [Category.openings, Node.openings, hself, hnot] using ih
  | @sign s ss n hsign _ ih =>
    rw [List.forall_mem_cons] at hss
    have hvalue : s.value ∈ ["-", "+"] :=
      value_mem_of_genuine [.minus, .plus] hss.1 (by simpa using hsign) (by decide) (by decide)
    have hstrength : ofUnary s.value = 7 := by
      have hall : ∀ op ∈ ["-", "+"], ofUnary op = 7 := by decide
      exact hall _ hvalue
    have hself : brackets 7 (.unary {} s.value n) = 0 :=
      brackets_eq_zero (Nat.le_of_eq hstrength.symm)
    have hparen : s.kind ≠ .lparen := by rcases hsign with h | h <;> simp [h]
    simpa [Category.openings, Node.openings, hself, hstrength, hparen] using ih hss.2
  | member _ hdot hname ih =>
    simp only [List.forall_mem_append] at hss
    have ih := ih hss.1
    have hself : ∀ {s base name}, brackets 8 (.member s base name) = 0 :=
      brackets_eq_zero (Nat.le_refl 8)
    simpa [Category.openings, Node.openings, hself, hdot, hname, ofAtom_eq] using ih
  | call _ hopening _ ih ihargs =>
    simp only [List.forall_mem_append, List.forall_mem_cons] at hss
    have ih := ih hss.1
    have ihargs := ihargs hss.2.2
    have hself : ∀ {s callee args}, brackets 8 (.call s callee args) = 0 :=
      brackets_eq_zero (Nat.le_refl 8)
    simp only [Category.openings, Node.openings, hself, openings_append,
      openings_cons_of_eq hopening, ofAtom_eq] at ih ihargs ⊢
    omega
  | name _ _ => exact Nat.zero_le _
  | string _ _ => exact Nat.zero_le _
  | number _ => exact Nat.zero_le _
  | list _ _ ih => exact (ih (List.forall_mem_cons.mp hss).2).trans openings_le_cons
  | dict _ _ ih => exact (ih (List.forall_mem_cons.mp hss).2).trans openings_le_cons
  | @parenthesised opening closing ss n hopening _ _ ih =>
    simp only [List.forall_mem_append, List.forall_mem_cons] at hss
    have ih := Category.openings_le.trans (ih hss.2.1)
    have hone : brackets 8 n ≤ 1 := brackets_le_one
    simp only [Category.openings, openings_cons_of_eq hopening, openings_append]
    omega
  | positional _ ih => exact Category.openings_le.trans (ih hss)
  | @starred star ss n hstar _ ih =>
    rw [List.forall_mem_cons] at hss
    have hvalue : star.value ∈ ["*", "**"] :=
      value_mem_of_genuine [.star, .doubleStar] hss.1 (by simpa using hstar) (by decide) (by decide)
    have hstrength : ofUnary star.value = 0 := by
      have hall : ∀ op ∈ ["*", "**"], ofUnary op = 0 := by decide
      exact hall _ hvalue
    have ih := Category.openings_le.trans (ih hss.2)
    simpa [Category.openings, Node.openings, hstrength] using ih.trans openings_le_cons
  | keyword _ _ _ ih =>
    simp only [List.forall_mem_cons] at hss
    have ih := Category.openings_le.trans (ih hss.2.2)
    simpa [Category.openings, Node.openings] using
      ih.trans (openings_le_cons.trans openings_le_cons)
  | entry _ hcolon _ ihkey ihvalue =>
    simp only [List.forall_mem_append, List.forall_mem_cons] at hss
    have ihkey := Category.openings_le.trans (ihkey hss.1)
    have ihvalue := Category.openings_le.trans (ihvalue hss.2.2)
    simp only [Category.openings, Node.openings, openings_append]
    exact Nat.add_le_add ihkey (ihvalue.trans openings_le_cons)
  | close _ => exact Nat.zero_le _
  | last _ _ ih =>
    simp only [List.forall_mem_append] at hss
    have ih := Category.openings_le.trans (ih hss.1)
    simpa [Category.openings, Node.openings, Node.openingsAll] using ih.trans (Nat.le_add_right _ _)
  | more _ _ _ ih ihmore =>
    simp only [List.forall_mem_append, List.forall_mem_cons] at hss
    have ih := Category.openings_le.trans (ih hss.1)
    have ihmore := ihmore hss.2.2
    simp only [Category.openings, Node.openings, Node.openingsAll, openings_append] at ihmore ⊢
    exact Nat.add_le_add ih (ihmore.trans openings_le_cons)

theorem LoadDerives.openings_le {ss : List Symbol} {ns : List Node} (h : LoadDerives ss ns)
    (hss : ∀ s ∈ ss, s.Genuine) : Node.openingsAll ns ≤ openings ss := by
  induction h with
  | close _ => exact Nat.zero_le _
  | closeBehindComma _ _ => exact Nat.zero_le _
  | more _ h _ ih =>
    simp only [List.forall_mem_append, List.forall_mem_cons] at hss
    rw [Node.openingsAll]
    have hsum := Nat.add_le_add (h.openings_le hss.2.1) (ih hss.2.2)
    exact (hsum.trans openings_append.ge).trans openings_le_cons

theorem StatementDerives.openings_le {ss : List Symbol} {n : Node} (h : StatementDerives ss n)
    (hss : ∀ s ∈ ss, s.Genuine) : n.openings ≤ openings ss := by
  cases h with
  | load hname hopening hmodule hargs =>
    simp only [List.forall_mem_cons] at hss
    have hargs := hargs.openings_le hss.2.2.2
    rw [openings_cons_of_ne (by simp [hname.1]), openings_cons_of_eq hopening,
      openings_cons_of_ne (by simp [hmodule])]
    simp only [Node.openings]
    omega
  | value h _ => exact Category.openings_le.trans (h.openings_le hss)
  | assign hx _ hy _ =>
    simp only [List.forall_mem_append, List.forall_mem_cons] at hss
    have hx := Category.openings_le.trans (hx.openings_le hss.1)
    have hy := Category.openings_le.trans (hy.openings_le hss.2.2)
    simp only [Node.openings, openings_append]
    exact Nat.add_le_add hx (hy.trans openings_le_cons)

theorem BlockDerives.openings_le {ss : List Symbol} {ns : List Node} (h : BlockDerives ss ns)
    (hss : ∀ s ∈ ss, s.Genuine) : Node.openingsAll ns ≤ openings ss := by
  induction h with
  | none => exact Nat.le_refl 0
  | last h => exact h.openings_le hss
  | more h _ _ _ ih =>
    simp only [List.forall_mem_append] at hss
    have h := h.openings_le hss.1
    have ih := ih hss.2.2
    simp only [Node.openingsAll, openings_append]
    omega

/-- **No text opens fewer parentheses than the statements of its file need.** -/
theorem FileDerives.openings_le {ss : List Symbol} {ns : List Node} (h : FileDerives ss ns)
    (hss : ∀ s ∈ ss, s.kind ≠ .endOfFile → s.Genuine) : Node.openingsAll ns ≤ openings ss := by
  cases h with
  | mk _ hblock _ =>
    have hle := hblock.openings_le fun s hs =>
      hss s (by simp [hs]) (hblock.kind_ne_endOfFile s hs)
    simp only [openings_append]
    omega

end Grammar

end StarlarkLint
