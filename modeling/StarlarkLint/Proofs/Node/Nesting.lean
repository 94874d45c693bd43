import Mathlib.Data.List.Chain
import StarlarkLint.Proofs.Node.Slots
import StarlarkLint.Proofs.Position

/-!
# Spans inside spans

Spans stand in a row when each of them starts where the one before it has ended, or later.  In a
tree that was read from a text the spans in the slots of a node stand in a row inside the span of
the node, and this is so on every level.

## Main definitions

* `Span.Row` — spans in a row between two places.
* `Node.Nested` — the spans of a tree lie inside one another.
* `Node.Follows` — how a node stands to one that a walk meets earlier.

## Main results

* `Span.Row.append`, `Span.Row.split` — rows are put together and taken apart.
* `Node.nested_of_row` — a node from the first to the last of the spans in a row.
* `Node.Nested.inside` — every node of a tree stands inside its root.
* `Node.Nested.pairwise_nodes` — what a walk meets later is below or behind.
-/

namespace StarlarkLint

/-! ### Spans in a row -/

/-- From the first place on the spans follow one another up to the second place, none of them
empty. -/
inductive Span.Row : Position → List Span → Position → Prop
  /-- There is no span, and the places are in order. -/
  | nil {p q : Position} (h : p ≤ q) : Row p [] q
  /-- A span is followed by the others. -/
  | cons {p q : Position} {s : Span} {ss : List Span} (hstart : p ≤ s.start)
      (hspan : s.start < s.stop) (h : Row s.stop ss q) : Row p (s :: ss) q

namespace Span.Row

variable {p p' q q' : Position} {s : Span} {ss ts : List Span}

theorem le (h : Row p ss q) : p ≤ q := by
  induction h with
  | nil h => exact h
  | cons hstart hspan _ ih =>
    exact Position.le_trans hstart (Position.le_of_lt (Position.lt_of_lt_of_le hspan ih))

/-- A row between two places is one between places further apart. -/
theorem widen (h : Row p ss q) (hp : p' ≤ p) (hq : q ≤ q') : Row p' ss q' := by
  induction h generalizing p' with
  | nil h => exact .nil (Position.le_trans hp (Position.le_trans h hq))
  | cons hstart hspan _ ih =>
    exact .cons (Position.le_trans hp hstart) hspan (ih (Position.le_refl _) hq)

theorem singleton (hstart : p ≤ s.start) (hspan : s.start < s.stop) (hstop : s.stop ≤ q) :
    Row p [s] q :=
  .cons hstart hspan (.nil hstop)

/-- One row behind another is a row. -/
theorem append {m : Position} (h : Row p ss m) (h' : Row m ts q) : Row p (ss ++ ts) q := by
  induction h with
  | nil h => exact h'.widen h (Position.le_refl q)
  | cons hstart hspan _ ih => exact .cons hstart hspan (ih h')

/-- Between two parts of a row there is a place. -/
theorem split (h : Row p (ss ++ ts) q) : ∃ m, Row p ss m ∧ Row m ts q := by
  induction ss generalizing p with
  | nil => exact ⟨p, .nil (Position.le_refl p), h⟩
  | cons s ss ih =>
    cases h with
    | cons hstart hspan h =>
      obtain ⟨m, hss, hts⟩ := ih h
      exact ⟨m, .cons hstart hspan hss, hts⟩

/-- Behind the first span of a row there are the others. -/
theorem uncons (h : Row p (s :: ss) q) : Row p [s] s.stop ∧ Row s.stop ss q := by
  cases h with
  | cons hstart hspan h => exact ⟨.singleton hstart hspan (Position.le_refl _), h⟩

/-- Some of the spans in a row stand in a row. -/
theorem sublist (h : Row p ss q) (hsub : ts.Sublist ss) : Row p ts q := by
  induction hsub generalizing p with
  | slnil => exact h
  | cons s _ ih =>
    cases h with
    | cons hstart hspan h =>
      have hle := Position.le_trans hstart (Position.le_of_lt hspan)
      exact (ih h).widen hle (Position.le_refl q)
  | cons_cons s _ ih =>
    cases h with
    | cons hstart hspan h => exact .cons hstart hspan (ih h)

/-- Each span in a row is not empty and lies between the places. -/
theorem bounds (h : Row p ss q) : ∀ s ∈ ss, p ≤ s.start ∧ s.start < s.stop ∧ s.stop ≤ q := by
  induction h with
  | nil => exact List.forall_mem_nil _
  | cons hstart hspan h ih =>
    refine List.forall_mem_cons.mpr ⟨⟨hstart, hspan, h.le⟩, fun s hs => ?_⟩
    obtain ⟨hbehind, hmore, hstop⟩ := ih s hs
    have hle := Position.le_trans hstart (Position.le_of_lt hspan)
    exact ⟨Position.le_trans hle hbehind, hmore, hstop⟩

/-- Each span in a row has ended where any later one starts. -/
theorem pairwise (h : Row p ss q) : ss.Pairwise fun a b => a.stop ≤ b.start := by
  induction h with
  | nil => exact .nil
  | cons _ _ h ih => exact .cons (fun s hs => (h.bounds s hs).1) ih

/-- Spans that stand in a row do not overlap, and each has ended where the next one starts. -/
theorem isChain (h : Row p ss q) : ss.IsChain fun a b => a.stop ≤ b.start := h.pairwise.isChain

/-- No two spans in a row start at the same place. -/
theorem nodup_starts (h : Row p ss q) : (ss.map Span.start).Nodup := by
  refine List.pairwise_map.mpr (h.pairwise.imp_of_mem ?_)
  intro a b ha _ hapart heq
  have hlt := Position.lt_of_lt_of_le (h.bounds a ha).2.1 hapart
  rw [heq] at hlt
  exact Position.not_lt.mpr (Position.le_refl b.start) hlt

/-- The last of some spans is the one that is put behind the others. -/
theorem mem_getLast? (s e : Span) (ss : List Span) : e ∈ (s :: (ss ++ [e])).getLast? := by
  rw [← List.cons_append]
  exact List.getLast?_concat

/-- A row starts with the first of its spans. -/
theorem from_head (h : Row p ss q) (hs : s ∈ ss.head?) : Row s.start ss q := by
  cases h with
  | nil => cases hs
  | cons hstart hspan h =>
    cases hs
    exact .cons (Position.le_refl _) hspan h

/-- A row ends with the last of its spans. -/
theorem to_last (h : Row p ss q) (hs : s ∈ ss.getLast?) : Row p ss s.stop := by
  obtain ⟨front, rfl⟩ := List.getLast?_eq_some_iff.mp hs
  obtain ⟨m, hfront, hlast⟩ := h.split
  cases hlast with
  | cons hstart hspan _ => exact hfront.append (.singleton hstart hspan (Position.le_refl _))

end Span.Row

/-! ### Trees -/

namespace Node

open StarlarkLint.Span (Row)

/-- On every level of the tree the spans are not empty, and those in the slots of a node stand in a
row inside the span of the node. -/
def Nested (n : Node) : Prop :=
  ∀ m ∈ n.nodes, m.span.start < m.span.stop ∧ Row m.span.start (m.slots.map span) m.span.stop

variable {n m : Node} {p q : Position}

theorem nested_iff (hn : n ≠ hole) : n.Nested ↔
    (n.span.start < n.span.stop ∧ Row n.span.start (n.slots.map span) n.span.stop) ∧
      ∀ m ∈ n.slots, m.Nested := by
  unfold Nested
  rw [nodes_eq hn, List.forall_mem_cons]
  refine and_congr_right fun _ => ?_
  constructor
  · intro h m hm k hk
    exact h k (List.mem_flatMap.mpr ⟨m, hm, hk⟩)
  · intro h k hk
    obtain ⟨m, hm, hk⟩ := List.mem_flatMap.mp hk
    exact h m hm k hk

/-- **A node that reaches from the first to the last of the spans in a row** stands there in their
place, and is nested if the spans in its slots are among them. -/
theorem nested_of_row {ss : List Span} {s e : Span} (hrow : Row p ss q) (hs : s ∈ ss.head?)
    (he : e ∈ ss.getLast?) (hspan : n.span = ⟨s.start, e.stop⟩)
    (hslots : (n.slots.map span).Sublist ss) (h : ∀ m ∈ n.slots, m.Nested) :
    Row p [n.span] q ∧ n.Nested := by
  have hstart := hrow.bounds s (List.mem_of_mem_head? hs)
  have hstop := hrow.bounds e (List.mem_of_getLast? he)
  have hwhole : Row s.start ss e.stop := (hrow.from_head hs).to_last he
  -- the first span alone is enough for the node not to be empty
  have hlt : s.start < e.stop := by
    have hfirst := hwhole.bounds s (List.mem_of_mem_head? hs)
    exact Position.lt_of_lt_of_le hfirst.2.1 hfirst.2.2
  constructor
  · rw [hspan]
    exact .singleton hstart.1 hlt hstop.2.2
  · by_cases hn : n = hole
    · subst hn
      exact List.forall_mem_nil _
    · refine (nested_iff hn).mpr ⟨?_, h⟩
      rw [hspan]
      exact ⟨hlt, hwhole.sublist hslots⟩

/-- A node without anything below it is nested if its span is not empty. -/
theorem nested_of_slots_eq_nil (hslots : n.slots = []) (hrow : Row p [n.span] q) : n.Nested := by
  refine (nested_of_row hrow rfl rfl rfl ?_ ?_).2
  · rw [hslots]
    exact List.nil_sublist _
  · rw [hslots]
    exact List.forall_mem_nil _

/-- **Every node of a nested tree stands inside its root.** -/
theorem Nested.inside (h : n.Nested) :
    ∀ m ∈ n.nodes, n.span.start ≤ m.span.start ∧ m.span.stop ≤ n.span.stop := by
  induction n using induction_slots with
  | h n ih =>
    by_cases hn : n = hole
    · subst hn
      exact List.forall_mem_nil _
    obtain ⟨⟨-, hrow⟩, hslots⟩ := (nested_iff hn).mp h
    rw [nodes_eq hn]
    refine List.forall_mem_cons.mpr ⟨⟨Position.le_refl _, Position.le_refl _⟩, fun m hm => ?_⟩
    obtain ⟨k, hk, hm⟩ := List.mem_flatMap.mp hm
    obtain ⟨hstart, -, hstop⟩ := hrow.bounds k.span (List.mem_map_of_mem hk)
    obtain ⟨hfrom, hto⟩ := ih k hk (hslots k hk) m hm
    exact ⟨Position.le_trans hstart hfrom, Position.le_trans hto hstop⟩

theorem Nested.of_mem_nodes (h : n.Nested) (hm : m ∈ n.nodes) : m.Nested :=
  fun k hk => h k (mem_nodes_trans hk hm)

/-- What stands in a slot stands inside the node. -/
theorem Nested.row_of_mem_slots (h : n.Nested) (hm : m ∈ n.slots) :
    Row n.span.start [m.span] n.span.stop ∧ m.Nested := by
  have hn : n ≠ hole := by
    rintro rfl
    cases hm
  obtain ⟨⟨-, hrow⟩, hslots⟩ := (nested_iff hn).mp h
  obtain ⟨hstart, hlt, hstop⟩ := hrow.bounds m.span (List.mem_map_of_mem hm)
  exact ⟨.singleton hstart hlt hstop, hslots m hm⟩

/-- A node that is met later is below an earlier one or behind it. -/
def Follows (n m : Node) : Prop := m ∈ n.slots.flatMap nodes ∨ n.span.stop ≤ m.span.start

/-- If it is so in each of the trees in a row, it is so in all of them. -/
theorem pairwise_flatMap_nodes {ns : List Node} (hrow : Row p (ns.map span) q)
    (hnested : ∀ n ∈ ns, n.Nested) (h : ∀ n ∈ ns, n.nodes.Pairwise Follows) :
    (ns.flatMap nodes).Pairwise Follows := by
  refine List.pairwise_flatMap.mpr ⟨h, ?_⟩
  apply (List.pairwise_map.mp hrow.pairwise).imp_of_mem
  intro n m hn hm hapart x hx y hy
  have hstop := ((hnested n hn).inside x hx).2
  have hstart := ((hnested m hm).inside y hy).1
  exact .inr (Position.le_trans hstop (Position.le_trans hapart hstart))

/-- **What a walk of a nested tree meets later is below or behind.** -/
theorem Nested.pairwise_nodes (h : n.Nested) : n.nodes.Pairwise Follows := by
  induction n using induction_slots with
  | h n ih =>
    by_cases hn : n = hole
    · subst hn
      exact .nil
    obtain ⟨⟨-, hrow⟩, hslots⟩ := (nested_iff hn).mp h
    rw [nodes_eq hn]
    refine .cons (fun m hm => .inl hm) ?_
    exact pairwise_flatMap_nodes hrow hslots fun m hm => ih m hm (hslots m hm)

/-! ### Children -/

theorem children_sublist_slots (n : Node) : n.children.Sublist n.slots := by
  have hchildren : n.children = n.slots.filter (!·.isHole) := by
    cases n <;> rfl
  rw [hchildren]
  exact List.filter_sublist

/-- The children of a node stand inside it and one behind the other. -/
structure SpansNest (n : Node) : Prop where
  /-- Each child stands inside the node. -/
  inside : ∀ m ∈ n.children, n.span.start ≤ m.span.start ∧ m.span.stop ≤ n.span.stop
  /-- Each child has ended where the next one starts. -/
  apart : n.children.IsChain fun a b => a.span.stop ≤ b.span.start

theorem spansNest_of_row (h : Row n.span.start (n.slots.map span) n.span.stop) : n.SpansNest := by
  have hrow := h.sublist (n.children_sublist_slots.map span)
  constructor
  · intro m hm
    obtain ⟨hstart, -, hstop⟩ := hrow.bounds m.span (List.mem_map_of_mem hm)
    exact ⟨hstart, hstop⟩
  · exact (List.isChain_map span).mp hrow.isChain

end Node

end StarlarkLint
