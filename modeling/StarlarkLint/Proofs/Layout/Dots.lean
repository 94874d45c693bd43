import Mathlib
import StarlarkLint.Layout.Render
import StarlarkLint.Proofs.Except
import StarlarkLint.Proofs.Layout.Pieces
import StarlarkLint.Proofs.Node.Expressible
import StarlarkLint.Proofs.Node.Slots

/-!
# The dots of a layout

A layout may break lines, and add commas, blanks and brackets, but it adds no dots.  So there are as
many dots in the text of a tree as the nodes of the tree write: one for each member, and those in
names, numbers and strings.  However a tree is changed, if its nodes come to write another number of
dots, the change can be seen in the text.

## Main definitions

* `dotsIn` — the number of dots in a text.
* `Node.ownDots`, `Node.dots` — the dots that a node writes by itself, and those of a tree.

## Main results

* `Node.dotsIn_render`, `SourceFile.dotsIn_render` — the dots in the text of a tree and of a file.
* `Node.IsStatement.exists_render`, `SourceFile.exists_render` — what can be spelled, but for its
  names, has a text.
-/

namespace StarlarkLint

/-! ### Counting -/

/-- The number of dots in a text. -/
def dotsIn (text : String) : ℕ := text.toList.count '.'

@[simp] theorem dotsIn_append (s t : String) : dotsIn (s ++ t) = dotsIn s + dotsIn t := by
  simp [dotsIn]

theorem dotsIn_join (texts : List String) :
    dotsIn (String.join texts) = (texts.map dotsIn).sum := by
  rw [dotsIn, String.toList_join, List.count_flatMap]
  rfl

/-- Separators without dots add none. -/
theorem dotsIn_intercalate {sep : String} (hsep : dotsIn sep = 0) (texts : List String) :
    dotsIn (sep.intercalate texts) = (texts.map dotsIn).sum := by
  cases texts with
  | nil => rfl
  | cons text texts =>
    have hmember : ∀ t : String, (sep.toList ++ t.toList).count '.' = dotsIn t := by
      intro t
      rw [List.count_append, show sep.toList.count '.' = 0 from hsep, Nat.zero_add]
      rfl
    rw [dotsIn, toList_intercalate_cons, List.count_append, List.count_flatMap, List.map_cons,
      List.sum_cons]
    simp only [Function.comp_def, hmember]
    rfl

@[simp] theorem dotsIn_bracketed (least : ℕ) (node : Node) (text : String) :
    dotsIn (bracketed least node text) = dotsIn text := by
  unfold bracketed
  split
  · simp [dotsIn]
  · rfl

namespace Node

/-- The dots that a node writes by itself. -/
def ownDots : Node → ℕ
  | ident _ name => dotsIn name
  | string _ value => dotsIn (Literal.written value)
  | number _ value => dotsIn value
  | member _ _ name => dotsIn name + 1
  | unary _ op _ | binary _ op _ _ | assign _ _ op _ => dotsIn op
  | _ => 0

/-- The dots that the nodes of a tree write. -/
def dots (n : Node) : ℕ := (n.nodes.map ownDots).sum

theorem dots_eq (n : Node) : n.dots = n.ownDots + (n.slots.map dots).sum := by
  by_cases hn : n = hole
  · subst hn
    rfl
  · rw [dots, nodes_eq hn, List.map_cons, List.sum_cons, List.map_flatMap, List.flatMap_def,
      List.sum_flatten, List.map_map]
    rfl

@[simp] theorem ownDots_mapSlots (g : Node → Node) (n : Node) :
    (n.mapSlots g).ownDots = n.ownDots := by
  cases n <;> rfl

/-! ### Trees -/

variable {options : LayoutOptions}

theorem renderAll_eq_ok_iff {level : ℕ} {ns : List Node} {texts : List String} :
    renderAll options level ns = .ok texts ↔
      List.Forall₂ (fun n text => n.render options level = .ok text) ns texts := by
  induction ns generalizing texts with
  | nil => simp [renderAll, eq_comm]
  | cons n ns ih =>
    rw [renderAll, bind_eq_ok_iff, List.forall₂_cons_left_iff]
    simp only [bind_eq_ok_iff, Except.ok.injEq, ih]
    constructor
    · rintro ⟨text, htext, texts, htexts, rfl⟩
      exact ⟨text, texts, htext, htexts, rfl⟩
    · rintro ⟨text, texts, htext, htexts, rfl⟩
      exact ⟨text, htext, texts, htexts, rfl⟩

/-- The dots in the texts of the nodes in a sequence. -/
theorem sum_dotsIn_renderAll {level : ℕ} {ns : List Node} {texts : List String}
    (ih : ∀ n ∈ ns, ∀ level text, n.render options level = .ok text → dotsIn text = n.dots)
    (h : renderAll options level ns = .ok texts) :
    (texts.map dotsIn).sum = (ns.map dots).sum := by
  have hforall := renderAll_eq_ok_iff.mp h
  induction hforall with
  | nil => rfl
  | cons htext hrest ihrest =>
    rw [List.forall_mem_cons] at ih
    rw [List.map_cons, List.map_cons, List.sum_cons, List.sum_cons, ih.1 level _ htext,
      ihrest ih.2 (renderAll_eq_ok_iff.mpr hrest)]

end Node

theorem LayoutOptions.dotsIn_stacked {options : LayoutOptions} (hindent : dotsIn options.indent = 0)
    (level : ℕ) {opener closer : String} (hopener : dotsIn opener = 0) (hcloser : dotsIn closer = 0)
    (items : List String) :
    dotsIn (options.stacked level opener closer items) = (items.map dotsIn).sum := by
  have hindentation : ∀ level, dotsIn (options.indentation level) = 0 := by
    intro level
    rw [indentation, dotsIn_join]
    simp [hindent]
  have hcomma : dotsIn "," = 0 := rfl
  have hline : ∀ item,
      dotsIn (options.indentation (level + 1) ++ item ++ ",") = dotsIn item := by
    intro item
    rw [dotsIn_append, dotsIn_append, hindentation, hcomma, Nat.zero_add, Nat.add_zero]
  unfold stacked
  split
  · next hitems =>
    subst hitems
    rw [dotsIn_append, hopener, hcloser]
    rfl
  · rw [dotsIn_intercalate rfl, List.map_append, List.map_cons, List.sum_append, List.sum_cons,
      List.map_map]
    simp [Function.comp_def, hline, hopener, hcloser, hindentation]

namespace Node

variable {options : LayoutOptions} (hindent : dotsIn options.indent = 0)
include hindent

/-- **The dots in the text of a tree** are those that its nodes write. -/
theorem dotsIn_render (n : Node) (level : ℕ) (text : String)
    (h : n.render options level = .ok text) : dotsIn text = n.dots := by
  induction n using induction_slots generalizing level text with
  | h n ih =>
    rw [dots_eq]
    have hspace : dotsIn " " = 0 := rfl
    cases n with
    | hole => cases h
    | file => cases h
    | ident s name =>
      cases h
      rfl
    | string s value =>
      cases h
      rfl
    | number s value =>
      cases h
      rfl
    | member s base name =>
      rw [slots, List.forall_mem_singleton] at ih
      simp only [render, bind_eq_ok_iff, Except.ok.injEq] at h
      obtain ⟨x, hx, rfl⟩ := h
      have hdot : dotsIn "." = 1 := rfl
      simp only [dotsIn_append, dotsIn_bracketed, ih level x hx, hdot, ownDots, slots,
        List.map_singleton, List.sum_singleton]
      omega
    | unary s op operand =>
      rw [slots, List.forall_mem_singleton] at ih
      simp only [render, bind_eq_ok_iff, Except.ok.injEq] at h
      obtain ⟨x, hx, rfl⟩ := h
      have hgap : dotsIn (if op = "not" then " " else "") = 0 := by split <;> rfl
      simp only [dotsIn_append, dotsIn_bracketed, ih level x hx, hgap, ownDots, slots,
        List.map_singleton, List.sum_singleton]
      omega
    | binary s op left right =>
      rw [slots, List.forall_mem_cons, List.forall_mem_singleton] at ih
      rw [render] at h
      split at h
      · cases h
      · simp only [bind_eq_ok_iff, Except.ok.injEq] at h
        obtain ⟨x, hx, y, hy, rfl⟩ := h
        simp only [dotsIn_append, dotsIn_bracketed, ih.1 level x hx, ih.2 level y hy, hspace,
          ownDots, slots, List.map_cons, List.map_nil, List.sum_cons, List.sum_nil]
        omega
    | assign s target op value =>
      rw [slots, List.forall_mem_cons, List.forall_mem_singleton] at ih
      simp only [render, bind_eq_ok_iff, Except.ok.injEq] at h
      obtain ⟨x, hx, y, hy, rfl⟩ := h
      simp only [dotsIn_append, ih.1 level x hx, ih.2 level y hy, hspace, ownDots, slots,
        List.map_cons, List.map_nil, List.sum_cons, List.sum_nil]
      omega
    | entry s key value =>
      rw [slots, List.forall_mem_cons, List.forall_mem_singleton] at ih
      simp only [render, bind_eq_ok_iff, Except.ok.injEq] at h
      obtain ⟨x, hx, y, hy, rfl⟩ := h
      have hcolon : dotsIn ": " = 0 := rfl
      simp only [dotsIn_append, ih.1 level x hx, ih.2 level y hy, hcolon, ownDots, slots,
        List.map_cons, List.map_nil, List.sum_cons, List.sum_nil]
      omega
    | list s items =>
      rw [slots] at ih
      rw [render] at h
      show _ = 0 + (items.map dots).sum
      rw [Nat.zero_add]
      split at h
      · simp only [bind_eq_ok_iff, Except.ok.injEq] at h
        obtain ⟨texts, htexts, rfl⟩ := h
        have hbrackets : dotsIn "[" = 0 ∧ dotsIn "]" = 0 := ⟨rfl, rfl⟩
        rw [dotsIn_append, dotsIn_append, hbrackets.1, hbrackets.2, dotsIn_intercalate rfl,
          sum_dotsIn_renderAll ih htexts, Nat.zero_add, Nat.add_zero]
      · simp only [bind_eq_ok_iff, Except.ok.injEq] at h
        obtain ⟨texts, htexts, rfl⟩ := h
        rw [LayoutOptions.dotsIn_stacked hindent level rfl rfl, sum_dotsIn_renderAll ih htexts]
    | dict s entries =>
      rw [slots] at ih
      simp only [render, bind_eq_ok_iff, Except.ok.injEq] at h
      obtain ⟨texts, htexts, rfl⟩ := h
      show _ = 0 + (entries.map dots).sum
      rw [LayoutOptions.dotsIn_stacked hindent level rfl rfl, sum_dotsIn_renderAll ih htexts,
        Nat.zero_add]
    | call s callee args =>
      rw [slots, List.forall_mem_cons] at ih
      show _ = 0 + ((callee :: args).map dots).sum
      rw [Nat.zero_add, List.map_cons, List.sum_cons]
      simp only [render, bind_eq_ok_iff] at h
      obtain ⟨name, hname, texts, htexts, h⟩ := h
      split at h
      · cases h
        have hbrackets : dotsIn "(" = 0 ∧ dotsIn ")" = 0 := ⟨rfl, rfl⟩
        rw [dotsIn_append, dotsIn_append, dotsIn_append, dotsIn_bracketed, hbrackets.1,
          hbrackets.2, dotsIn_intercalate rfl, ih.1 level name hname,
          sum_dotsIn_renderAll ih.2 htexts, Nat.add_zero, Nat.add_zero]
      · simp only [bind_eq_ok_iff, Except.ok.injEq] at h
        obtain ⟨below, hbelow, rfl⟩ := h
        rw [dotsIn_append, dotsIn_bracketed, LayoutOptions.dotsIn_stacked hindent level rfl rfl,
          ih.1 level name hname, sum_dotsIn_renderAll ih.2 hbelow]
    | load s module args =>
      rw [slots, List.forall_mem_cons] at ih
      show _ = 0 + ((module :: args).map dots).sum
      rw [Nat.zero_add, List.map_cons, List.sum_cons]
      simp only [render, bind_eq_ok_iff, Except.ok.injEq] at h
      obtain ⟨name, hname, texts, htexts, rfl⟩ := h
      have hbrackets : dotsIn "load(" = 0 ∧ dotsIn ")" = 0 := ⟨rfl, rfl⟩
      rw [dotsIn_append, dotsIn_append, hbrackets.1, hbrackets.2, dotsIn_intercalate rfl,
        List.map_cons, List.sum_cons, ih.1 level name hname, sum_dotsIn_renderAll ih.2 htexts,
        Nat.zero_add, Nat.add_zero]

end Node

/-! ### Files -/

namespace SourceFile

variable {options : LayoutOptions}

theorem sum_dotsIn_linesAfter (previous : Node) (rest : List (Node × String)) :
    ((options.linesAfter previous rest).map dotsIn).sum = (rest.map fun p => dotsIn p.2).sum := by
  induction rest generalizing previous with
  | nil => rfl
  | cons p rest ih =>
    obtain ⟨next, text⟩ := p
    have hbetween : ((options.between previous next).map dotsIn).sum = 0 := by
      unfold LayoutOptions.between
      split <;> simp [dotsIn]
    rw [LayoutOptions.linesAfter, List.map_append, List.sum_append, hbetween, List.map_cons,
      List.sum_cons, ih, List.map_cons, List.sum_cons, Nat.zero_add]

/-- **The dots in the text of a file** are those that its nodes write. -/
theorem dotsIn_render (hindent : dotsIn options.indent = 0) {f : SourceFile} {text : String}
    (h : f.render options = .ok text) : dotsIn text = f.node.dots := by
  have hnode : f.node.dots = (f.statements.map Node.dots).sum := by
    rw [Node.dots_eq]
    exact Nat.zero_add _
  obtain ⟨texts, htexts, h⟩ := bind_eq_ok_iff.mp h
  have hsum := Node.sum_dotsIn_renderAll (fun n _ => Node.dotsIn_render hindent n) htexts
  have hlength := (Node.renderAll_eq_ok_iff.mp htexts).length_eq
  rw [hnode, ← hsum]
  cases texts with
  | nil =>
    rw [List.zip_nil_right] at h
    cases h
    rfl
  | cons first texts =>
    cases hstatements : f.statements with
    | nil => simp [hstatements] at hlength
    | cons n ns =>
      rw [hstatements, List.zip_cons_cons] at h
      cases h
      have hrest : (ns.zip texts).map (fun p => dotsIn p.2) = texts.map dotsIn := by
        rw [hstatements, List.length_cons, List.length_cons, Nat.succ.injEq] at hlength
        calc (ns.zip texts).map (fun p => dotsIn p.2)
          _ = ((ns.zip texts).map Prod.snd).map dotsIn := by
              rw [List.map_map]
              rfl
          _ = texts.map dotsIn := by rw [List.map_snd_zip (Nat.le_of_eq hlength.symm)]
      have hfeed : dotsIn "\n" = 0 := rfl
      rw [dotsIn_append, hfeed, Nat.add_zero, dotsIn_intercalate rfl, List.map_cons, List.sum_cons,
        sum_dotsIn_linesAfter, hrest, List.map_cons, List.sum_cons]

end SourceFile

/-! ### What has a text -/

section

variable {options : LayoutOptions} {allowed : String → Prop}

theorem Node.exists_renderAll {ns : List Node} {level : ℕ}
    (h : ∀ n ∈ ns, ∃ text, n.render options level = .ok text) :
    ∃ texts, renderAll options level ns = .ok texts := by
  induction ns with
  | nil => exact ⟨[], rfl⟩
  | cons n ns ih =>
    rw [List.forall_mem_cons] at h
    obtain ⟨text, htext⟩ := h.1
    obtain ⟨texts, htexts⟩ := ih h.2
    exact ⟨text :: texts, by rw [renderAll, htext, htexts]; rfl⟩

/-- What can be spelled, but for its names, has a text. -/
theorem Node.Expressible.exists_render {role : Role} {n : Node} (h : n.Expressible allowed role)
    (level : ℕ) : ∃ text, n.render options level = .ok text := by
  induction h generalizing level with
  | ident => exact ⟨_, rfl⟩
  | string => exact ⟨_, rfl⟩
  | number => exact ⟨_, rfl⟩
  | positional _ ih => exact ih level
  | list _ ih =>
    obtain ⟨texts, htexts⟩ := exists_renderAll fun n hn => ih n hn level
    obtain ⟨below, hbelow⟩ := exists_renderAll fun n hn => ih n hn (level + 1)
    rw [render, htexts, hbelow]
    split <;> exact ⟨_, rfl⟩
  | dict _ ih =>
    obtain ⟨texts, htexts⟩ := exists_renderAll fun n hn => ih n hn (level + 1)
    exact ⟨_, by rw [render, htexts]; rfl⟩
  | member _ _ ih =>
    obtain ⟨text, htext⟩ := ih level
    exact ⟨_, by rw [render, htext]; rfl⟩
  | call _ _ ih ihargs =>
    obtain ⟨name, hname⟩ := ih level
    obtain ⟨texts, htexts⟩ := exists_renderAll fun n hn => ihargs n hn level
    obtain ⟨below, hbelow⟩ := exists_renderAll fun n hn => ihargs n hn (level + 1)
    simp only [render, hname, htexts, hbelow, bind, Except.bind]
    split <;> exact ⟨_, rfl⟩
  | unary _ _ ih =>
    obtain ⟨text, htext⟩ := ih level
    exact ⟨_, by rw [render, htext]; rfl⟩
  | starred _ _ ih =>
    obtain ⟨text, htext⟩ := ih level
    exact ⟨_, by rw [render, htext]; rfl⟩
  | @binary s op left right hop _ _ ihleft ihright =>
    obtain ⟨x, hx⟩ := ihleft level
    obtain ⟨y, hy⟩ := ihright level
    have hknown : ∀ op ∈ Operator.levels.flatten, (Strength.ofBinary? op).isSome := by decide
    obtain ⟨strength, hstrength⟩ := Option.isSome_iff_exists.mp (hknown op hop)
    exact ⟨_, by rw [render, hstrength, hx, hy]; rfl⟩
  | keyword _ _ ih =>
    obtain ⟨text, htext⟩ := ih level
    exact ⟨_, by rw [render, htext]; rfl⟩
  | entry _ _ ihkey ihvalue =>
    obtain ⟨x, hx⟩ := ihkey level
    obtain ⟨y, hy⟩ := ihvalue level
    exact ⟨_, by rw [render, hx, hy]; rfl⟩

/-- So has a statement. -/
theorem Node.IsStatement.exists_render {n : Node} (h : n.IsStatement allowed) (level : ℕ) :
    ∃ text, n.render options level = .ok text := by
  cases h with
  | load hargs =>
    obtain ⟨texts, htexts⟩ := exists_renderAll fun n hn => (hargs n hn).exists_render level
    exact ⟨_, by rw [render, htexts]; rfl⟩
  | value h => exact h.exists_render level
  | assign _ htarget hvalue =>
    obtain ⟨x, hx⟩ := htarget.exists_render level
    obtain ⟨y, hy⟩ := hvalue.exists_render level
    exact ⟨_, by rw [render, hx, hy]; rfl⟩

/-- **A file of statements that can be spelled, but for their names, has a text.** -/
theorem SourceFile.exists_render (options : LayoutOptions) {f : SourceFile}
    (h : ∀ n ∈ f.statements, n.IsStatement allowed) : ∃ text, f.render options = .ok text := by
  obtain ⟨texts, htexts⟩ : ∃ texts, Node.renderAll options 0 f.statements = .ok texts :=
    Node.exists_renderAll fun n hn => (h n hn).exists_render 0
  simp only [render, htexts, bind, Except.bind]
  split <;> exact ⟨_, rfl⟩

end

end StarlarkLint
