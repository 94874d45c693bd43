import StarlarkLint.Proofs.Check.Order
import StarlarkLint.Proofs.Node.Walking

/-!
# What is reported too early

A check that reports what stands in a call does so when it meets the call, and it meets what is
below the call later.  If another call is reported that stands below, but in front of what is
reported of the first one, it is overtaken: its finding comes later and is about an earlier place.
This is all that can go wrong.  The findings of the two checks that look into calls are in source
order exactly if no call is overtaken.

## Main definitions

* `Node.Overtakes` — something is reported below a node, but in front of what it is reported at.
* `StarArgs.places`, `ConstantGlob.places` — the places at which a node is reported.
* `StarArgs.Picks`, `ConstantGlob.Picks` — the nodes at which it is reported, and what stands in
  front of them.

## Main results

* `Node.start_le_iff` — what is reported in a row of trees comes behind one of them exactly if it is
  not reported in those in front of it.
* `SourceFile.NestedIn.pairwise_flatMap_iff` — what is reported in the nodes of a file is in order
  exactly if it is so for each node and those below it.
* `Check.call_findings_in_order_iff` — when the two checks report in source order.
-/

namespace StarlarkLint

open StarlarkLint.Span (Row)

/-! ### What is reported in nodes -/

namespace Node

variable {p q : Position} {before after : List Node} {k m n : Node}

/-- The nodes of a node of a tree stand together among the nodes of the tree. -/
theorem nodes_sublist_of_mem (h : m ∈ n.nodes) : m.nodes.Sublist n.nodes := by
  induction n using induction_slots with
  | h n ih =>
    by_cases hn : n = hole
    · subst hn
      cases h
    rw [nodes_eq hn, List.mem_cons, List.mem_flatMap] at h
    rcases h with rfl | ⟨s, hs, hm⟩
    · exact List.Sublist.refl _
    · have hslot : s.nodes.Sublist (n.slots.flatMap nodes) :=
        List.sublist_flatten_of_mem (List.mem_map_of_mem hs)
      rw [nodes_eq hn]
      exact ((ih s hs hm).trans hslot).cons n

/-- What stands in trees in a row has ended where a later tree starts, or is part of it, or starts
where it has ended. -/
theorem mem_flatMap_nodes_cases (hrow : Row p ((before ++ k :: after).map span) q)
    (hnested : ∀ n ∈ before ++ k :: after, n.Nested)
    (hm : m ∈ (before ++ k :: after).flatMap nodes) :
    m ∈ before.flatMap nodes ∧ m.span.stop ≤ k.span.start ∨
      m ∉ before.flatMap nodes ∧ (m ∈ k.nodes ∨ k.span.stop ≤ m.span.start) := by
  rw [List.map_append, List.map_cons] at hrow
  obtain ⟨middle, hbefore, hrest⟩ := hrow.split
  have hstart := (hrest.bounds k.span List.mem_cons_self).1
  by_cases hin : m ∈ before.flatMap nodes
  · refine .inl ⟨hin, ?_⟩
    obtain ⟨n, hn, hm⟩ := List.mem_flatMap.mp hin
    have hstop := (hbefore.bounds n.span (List.mem_map_of_mem hn)).2.2
    have hinside := ((hnested n (List.mem_append_left _ hn)).inside m hm).2
    exact Position.le_trans hinside (Position.le_trans hstop hstart)
  · refine .inr ⟨hin, ?_⟩
    rw [List.flatMap_append, List.flatMap_cons, List.mem_append, List.mem_append] at hm
    rcases hm with hm | hm | hm
    · exact absurd hm hin
    · exact .inl hm
    · obtain ⟨n, hn, hm⟩ := List.mem_flatMap.mp hm
      have hbehind := (hrest.uncons.2.bounds n.span (List.mem_map_of_mem hn)).1
      have hmem := List.mem_append_right before (List.mem_cons_of_mem k hn)
      exact .inr (Position.le_trans hbehind ((hnested n hmem).inside m hm).1)

/-- **What is reported in a row of trees does not come in front of one of them** exactly if it is
not reported in the trees before that one. -/
theorem start_le_iff (hrow : Row p ((before ++ k :: after).map span) q)
    (hnested : ∀ n ∈ before ++ k :: after, n.Nested)
    (hm : m ∈ (before ++ k :: after).flatMap nodes) {place : Span}
    (hplace : Row m.span.start [place] m.span.stop) :
    k.span.start ≤ place.start ↔ m ∉ before.flatMap nodes := by
  obtain ⟨hstart, hlt, hstop⟩ := hplace.bounds place List.mem_cons_self
  have hmem : k ∈ before ++ k :: after := List.mem_append_right before List.mem_cons_self
  obtain ⟨-, hk, -⟩ := hrow.bounds k.span (List.mem_map_of_mem hmem)
  rcases mem_flatMap_nodes_cases hrow hnested hm with ⟨hin, hbefore⟩ | ⟨hout, hfrom⟩
  · have hless := Position.lt_of_lt_of_le hlt (Position.le_trans hstop hbefore)
    exact ⟨fun hle => absurd hless (Position.not_lt.mpr hle), fun hout => absurd hin hout⟩
  · refine ⟨fun _ => hout, fun _ => ?_⟩
    rcases hfrom with hin | hbehind
    · exact Position.le_trans ((hnested k hmem).inside m hin).1 hstart
    · exact Position.le_trans (Position.le_of_lt hk) (Position.le_trans hbehind hstart)

end Node

variable {f : SourceFile} {stop : Position}

/-- **What is reported in the nodes of a file is in source order** exactly if it is so for each node
and those below it. -/
theorem SourceFile.NestedIn.pairwise_flatMap_iff (h : f.NestedIn stop) {places : Node → List Span}
    (hfile : places f.node = [])
    (hinside : ∀ n : Node, n ≠ .hole → n.Nested → Row n.span.start (places n) n.span.stop) :
    ((f.node.nodes.flatMap places).Pairwise fun a b => a.start ≤ b.start) ↔
      ∀ n ∈ f.statements.flatMap Node.nodes, ∀ m ∈ n.slots.flatMap Node.nodes,
        ∀ a ∈ places n, ∀ b ∈ places m, a.start ≤ b.start := by
  have hnodes : f.node.nodes = f.node :: f.statements.flatMap Node.nodes := Node.nodes_eq nofun
  have hrow : ∀ n ∈ f.statements.flatMap Node.nodes, Row n.span.start (places n) n.span.stop := by
    intro n hn
    obtain ⟨k, hk, hn⟩ := List.mem_flatMap.mp hn
    exact hinside n (Node.ne_hole_of_mem_nodes hn) ((h.nested k hk).of_mem_nodes hn)
  rw [hnodes, List.flatMap_cons, hfile, List.nil_append, List.pairwise_flatMap]
  constructor
  · rintro ⟨-, hpairs⟩ n hn m hm
    obtain ⟨k, hk, hn⟩ := List.mem_flatMap.mp hn
    have hstatement : k.nodes.Sublist (f.statements.flatMap Node.nodes) :=
      List.sublist_flatten_of_mem (List.mem_map_of_mem hk)
    have hbelow := hpairs.sublist ((Node.nodes_sublist_of_mem hn).trans hstatement)
    rw [Node.nodes_eq (Node.ne_hole_of_mem_nodes hn)] at hbelow
    exact List.rel_of_pairwise_cons hbelow hm
  · intro hbelow
    constructor
    · intro n hn
      apply (hrow n hn).pairwise.imp_of_mem
      intro a b ha _ hapart
      exact Position.le_trans (Position.le_of_lt ((hrow n hn).bounds a ha).2.1) hapart
    · have hfollows : (f.statements.flatMap Node.nodes).Pairwise Node.Follows :=
        Node.pairwise_flatMap_nodes h.row h.nested fun n hn => (h.nested n hn).pairwise_nodes
      apply hfollows.imp_of_mem
      intro n m hn hm hnm a ha b hb
      rcases hnm with hnm | hapart
      · exact hbelow n hn m hnm a ha b hb
      · obtain ⟨-, hlt, hstop⟩ := (hrow n hn).bounds a ha
        have hstart := ((hrow m hm).bounds b hb).1
        have hbefore := Position.le_trans (Position.le_of_lt hlt) hstop
        exact Position.le_trans hbefore (Position.le_trans hapart hstart)

/-! ### Nodes that are picked -/

namespace Node

/-- A node is reported at one that it picks, and something is reported in the nodes that stand in
front of that one. -/
def Overtakes (places : Node → List Span) (Picks : Node → List Node → Node → Prop) (n : Node) :
    Prop :=
  ∃ before picked, Picks n before picked ∧ ∃ m ∈ before.flatMap nodes, places m ≠ []

/-- Nodes are reported at the nodes that they pick among those below them. -/
structure ReportsAt (places : Node → List Span) (Picks : Node → List Node → Node → Prop) :
    Prop where
  /-- The places are those of the nodes that are picked. -/
  mem_places_iff : ∀ {n place}, place ∈ places n ↔
    ∃ before picked, Picks n before picked ∧ picked.span = place
  /-- What stands in front of a node that is picked is below the node that picks it. -/
  below : ∀ {n before picked}, Picks n before picked →
    ∀ m ∈ before.flatMap nodes, m ∈ n.slots.flatMap nodes
  /-- In a nested tree the places stand in a row. -/
  row : ∀ {n}, n ≠ hole → n.Nested → Row n.span.start (places n) n.span.stop
  /-- In a nested tree nothing else is reported in front of a node that is picked. -/
  start_le_iff : ∀ {n before picked}, n.Nested → Picks n before picked →
    ∀ m ∈ n.slots.flatMap nodes, ∀ place ∈ places m,
      (picked.span.start ≤ place.start ↔ m ∉ before.flatMap nodes)

namespace ReportsAt

variable {places : Node → List Span} {Picks : Node → List Node → Node → Prop}

/-- What a node is reported at comes in front of what is reported below it, unless it overtakes. -/
theorem start_le_iff_not_overtakes (h : ReportsAt places Picks) {n : Node} (hn : n.Nested) :
    (∀ m ∈ n.slots.flatMap nodes, ∀ a ∈ places n, ∀ b ∈ places m, a.start ≤ b.start) ↔
      ¬ n.Overtakes places Picks := by
  constructor
  · rintro hle ⟨before, picked, hpicks, m, hm, hplaces⟩
    obtain ⟨b, hb⟩ := List.exists_mem_of_ne_nil _ hplaces
    have hbelow := h.below hpicks m hm
    have hplace : picked.span ∈ places n := h.mem_places_iff.mpr ⟨before, picked, hpicks, rfl⟩
    exact (h.start_le_iff hn hpicks m hbelow b hb).mp (hle m hbelow _ hplace b hb) hm
  · intro hover m hm a ha b hb
    obtain ⟨before, picked, hpicks, rfl⟩ := h.mem_places_iff.mp ha
    refine (h.start_le_iff hn hpicks m hm b hb).mpr fun hbefore => hover ?_
    exact ⟨before, picked, hpicks, m, hbefore, List.ne_nil_of_mem hb⟩

/-- **What is reported in the nodes of a file is in source order exactly if no node overtakes.** -/
theorem pairwise_iff (h : ReportsAt places Picks) (hf : f.NestedIn stop)
    (hfile : places f.node = []) :
    ((f.node.nodes.flatMap places).Pairwise fun a b => a.start ≤ b.start) ↔
      ∀ n ∈ f.statements.flatMap nodes, ¬ n.Overtakes places Picks := by
  rw [hf.pairwise_flatMap_iff hfile fun n hn => h.row hn]
  refine forall₂_congr fun n hn => ?_
  obtain ⟨k, hk, hn⟩ := List.mem_flatMap.mp hn
  exact h.start_le_iff_not_overtakes ((hf.nested k hk).of_mem_nodes hn)

end ReportsAt

end Node

/-! ### Arguments behind stars -/

namespace StarArgs

open Node

/-- The places at which the arguments of a node are reported. -/
def places (n : Node) : List Span := (ofCall n).map Prod.fst

/-- A call has an argument behind stars; what is called and the arguments in front of it are
given. -/
inductive Picks : Node → List Node → Node → Prop
  /-- Other arguments may follow. -/
  | intro {s : Span} {callee star : Node} {before after : List Node}
      (hstar : (ofArgument? star).isSome) :
      Picks (.call s callee (before ++ star :: after)) (callee :: before) star

theorem span_of_ofArgument? {n : Node} {a : Span × String} (h : ofArgument? n = some a) :
    a.1 = n.span := by
  cases n with
  | unary s op operand =>
    obtain ⟨message, -, rfl⟩ := Option.map_eq_some_iff.mp h
    rfl
  | _ => cases h

theorem mem_places_iff {n : Node} {place : Span} :
    place ∈ places n ↔ ∃ before star, Picks n before star ∧ star.span = place := by
  constructor
  · intro h
    obtain ⟨a, ha, rfl⟩ := List.mem_map.mp h
    cases n with
    | call s callee args =>
      obtain ⟨star, hstar, hsome⟩ := List.mem_filterMap.mp ha
      obtain ⟨before, after, rfl⟩ := List.append_of_mem hstar
      have hstar := Option.isSome_of_eq_some hsome
      exact ⟨callee :: before, star, .intro hstar, (span_of_ofArgument? hsome).symm⟩
    | _ => cases ha
  · rintro ⟨before, star, hpicks, rfl⟩
    cases hpicks with
    | @intro s callee _ front after hstar =>
      obtain ⟨a, ha⟩ := Option.isSome_iff_exists.mp hstar
      have hmem : star ∈ front ++ star :: after := List.mem_append_right front List.mem_cons_self
      rw [← span_of_ofArgument? ha]
      exact List.mem_map_of_mem (List.mem_filterMap.mpr ⟨star, hmem, ha⟩)

/-- The places are some of those of the slots. -/
theorem places_sublist (n : Node) : (places n).Sublist (n.slots.map span) := by
  cases n with
  | call s callee args =>
    apply List.Sublist.cons
    rw [places, ofCall]
    induction args with
    | nil => exact .slnil
    | cons arg args ih =>
      rw [List.filterMap_cons, List.map_cons]
      cases harg : ofArgument? arg with
      | none => exact ih.cons _
      | some a =>
        rw [← span_of_ofArgument? harg]
        exact ih.cons_cons _
  | _ => exact List.nil_sublist _

theorem row_places {n : Node} (hn : n ≠ hole) (h : n.Nested) :
    Row n.span.start (places n) n.span.stop :=
  ((nested_iff hn).mp h).1.2.sublist (places_sublist n)

/-- A call is reported at its arguments behind stars. -/
theorem reportsAt : ReportsAt places Picks where
  mem_places_iff := mem_places_iff
  below := by
    rintro n before star ⟨-⟩ m hm
    rw [slots, ← List.cons_append, List.flatMap_append]
    exact List.mem_append_left _ hm
  row := row_places
  start_le_iff := by
    rintro n before star h ⟨-⟩ m hm place hplace
    obtain ⟨⟨-, hrow⟩, hslots⟩ := (nested_iff (by simp)).mp h
    obtain ⟨k, hk, hmk⟩ := List.mem_flatMap.mp hm
    have hplaces := row_places (ne_hole_of_mem_nodes hmk) ((hslots k hk).of_mem_nodes hmk)
    rw [slots, ← List.cons_append] at hrow hslots hm
    exact start_le_iff hrow hslots hm (hplaces.sublist (List.singleton_sublist.mpr hplace))

/-- **Arguments behind stars are reported in source order exactly if no call overtakes another.** -/
theorem pairwise_findings_iff (h : f.NestedIn stop) (hdialect : f.dialect = .build) :
    ((findings f).Pairwise fun a b => a.span.start ≤ b.span.start) ↔
      ∀ n ∈ f.statements.flatMap nodes, ¬ n.Overtakes places Picks := by
  have hplaces : (findings f).map (·.span) = f.node.nodes.flatMap places := by
    rw [findings, if_pos hdialect, List.map_map]
    exact List.map_flatMap
  rw [← reportsAt.pairwise_iff h rfl, ← hplaces, List.pairwise_map]

end StarArgs

/-! ### Constant patterns -/

namespace ConstantGlob

open Node

/-- The places at which the patterns of a node are reported. -/
def places (n : Node) : List Span :=
  (if n.isCallOf "glob" then pattern? n else none).toList.map Prod.fst

/-- A glob has a constant pattern; the patterns in front of it are given. -/
inductive Picks : Node → List Node → Node → Prop
  /-- None of the patterns in front of it is constant. -/
  | intro {s s' s'' : Span} {before after rest : List Node} {pattern : Node}
      (hbefore : ∀ k ∈ before, constant? k = none) (hpattern : (constant? pattern).isSome) :
      Picks (.call s (.ident s' "glob") (.list s'' (before ++ pattern :: after) :: rest)) before
        pattern

theorem span_of_constant? {n : Node} {a : Span × String} (h : constant? n = some a) :
    a.1 = n.span := by
  cases n with
  | string s value =>
    rw [constant?, Option.ite_none_left_eq_some, Option.some.injEq] at h
    rw [← h.2, span]
  | _ => cases h

theorem mem_places_iff {n : Node} {place : Span} :
    place ∈ places n ↔ ∃ before pattern, Picks n before pattern ∧ pattern.span = place := by
  constructor
  · intro h
    obtain ⟨a, ha, rfl⟩ := List.mem_map.mp h
    rw [Option.mem_toList, Option.ite_none_right_eq_some] at ha
    obtain ⟨hglob, ha⟩ := ha
    obtain ⟨s, s', args, rfl⟩ := isCallOf_iff.mp hglob
    unfold pattern? at ha
    split at ha
    · next heq =>
      cases heq
      obtain ⟨before, pattern, after, rfl, hpattern, hbefore⟩ := List.findSome?_eq_some_iff.mp ha
      have hsome := Option.isSome_of_eq_some hpattern
      exact ⟨before, pattern, .intro hbefore hsome, (span_of_constant? hpattern).symm⟩
    · cases ha
  · rintro ⟨before, pattern, hpicks, rfl⟩
    cases hpicks with
    | intro hbefore hpattern =>
      obtain ⟨a, ha⟩ := Option.isSome_iff_exists.mp hpattern
      rw [places, if_pos (isCallOf_iff.mpr ⟨_, _, _, rfl⟩), List.mem_map]
      refine ⟨a, Option.mem_toList.mpr ?_, span_of_constant? ha⟩
      exact List.findSome?_eq_some_iff.mpr ⟨before, pattern, _, rfl, ha, hbefore⟩

/-- A glob is reported once at most. -/
theorem length_places_le (n : Node) : (places n).length ≤ 1 := by
  rw [places, List.length_map]
  exact Option.length_toList_le

theorem row_places {n : Node} (hn : n ≠ hole) (h : n.Nested) :
    Row n.span.start (places n) n.span.stop := by
  cases hplaces : places n with
  | nil => exact .nil (Position.le_of_lt ((nested_iff hn).mp h).1.1)
  | cons place others =>
    have hlength := length_places_le n
    rw [hplaces, List.length_cons] at hlength
    obtain rfl : others = [] := List.length_eq_zero_iff.mp (by omega)
    have hmem : place ∈ places n := hplaces ▸ List.mem_cons_self
    obtain ⟨before, pattern, ⟨-, -⟩, rfl⟩ := mem_places_iff.mp hmem
    obtain ⟨hlist, hnested⟩ := h.row_of_mem_slots (List.mem_cons_of_mem _ List.mem_cons_self)
    obtain ⟨hstart, -, hstop⟩ := hlist.bounds _ List.mem_cons_self
    have hitem := (hnested.row_of_mem_slots (List.mem_append_right before List.mem_cons_self)).1
    exact hitem.widen hstart hstop

/-- Below a glob nothing is reported in front of a pattern but what stands in other patterns. -/
theorem start_le_iff_of_glob {s s' s'' place : Span} {before after rest : List Node}
    {pattern m : Node}
    (h : (call s (ident s' "glob") (list s'' (before ++ pattern :: after) :: rest)).Nested)
    (hm : m ∈ (ident s' "glob" :: list s'' (before ++ pattern :: after) :: rest).flatMap nodes)
    (hplace : place ∈ places m) :
    pattern.span.start ≤ place.start ↔ m ∉ before.flatMap nodes := by
  obtain ⟨⟨-, hrow⟩, hslots⟩ := (nested_iff (n := call ..) nofun).mp h
  obtain ⟨k, hk, hmk⟩ := List.mem_flatMap.mp hm
  have hplaces := (row_places (ne_hole_of_mem_nodes hmk) ((hslots k hk).of_mem_nodes hmk)).sublist
    (List.singleton_sublist.mpr hplace)
  have hlist := hslots _ (List.mem_cons_of_mem _ List.mem_cons_self)
  obtain ⟨⟨-, hitems⟩, hnested⟩ := (nested_iff (n := list ..) nofun).mp hlist
  rw [slots] at hitems hnested
  by_cases hin : m ∈ (before ++ pattern :: after).flatMap nodes
  · exact start_le_iff hitems hnested hin hplaces
  · have hout : m ∉ before.flatMap nodes := by
      intro hbefore
      rw [List.flatMap_append] at hin
      exact hin (List.mem_append_left _ hbefore)
    refine iff_of_true ?_ hout
    rw [slots, ← List.singleton_append] at hrow hslots
    rw [← List.singleton_append] at hm
    -- neither the name that is called nor the list is reported itself
    rcases mem_flatMap_nodes_cases hrow hslots hm with ⟨hcallee, -⟩ | ⟨-, hlist | hbehind⟩
    · obtain rfl : m = ident s' "glob" := by simpa [nodes, walk, walkFrom] using hcallee
      cases hplace
    · rw [nodes_eq (n := list ..) nofun, List.mem_cons] at hlist
      rcases hlist with rfl | hlist
      · cases hplace
      · exact absurd hlist hin
    · have hitem := hitems.bounds pattern.span
        (List.mem_map_of_mem (List.mem_append_right before List.mem_cons_self))
      have hstart := (hplaces.bounds place List.mem_cons_self).1
      have hpattern := Position.le_trans (Position.le_of_lt hitem.2.1) hitem.2.2
      exact Position.le_trans hpattern (Position.le_trans hbehind hstart)

/-- A glob is reported at its first constant pattern. -/
theorem reportsAt : ReportsAt places Picks where
  mem_places_iff := mem_places_iff
  below := by
    rintro n before pattern ⟨-, -⟩ m hm
    refine List.mem_flatMap.mpr ⟨.list .., List.mem_cons_of_mem _ List.mem_cons_self, ?_⟩
    rw [nodes_eq (n := list ..) nofun, slots, List.flatMap_append]
    exact List.mem_cons_of_mem _ (List.mem_append_left _ hm)
  row := row_places
  start_le_iff := by
    rintro n before pattern h ⟨-, -⟩ m hm place hplace
    exact start_le_iff_of_glob h hm hplace

/-- **Constant patterns are reported in source order exactly if no glob overtakes another.** -/
theorem pairwise_findings_iff (h : f.NestedIn stop) (hdialect : f.dialect ≠ .generic) :
    ((findings f).Pairwise fun a b => a.span.start ≤ b.span.start) ↔
      ∀ n ∈ f.statements.flatMap nodes, ¬ n.Overtakes places Picks := by
  have hplaces : (findings f).map (·.span) = f.node.nodes.flatMap places := by
    rw [findings, if_neg hdialect, List.map_map, globs, List.filterMap_filter,
      List.filterMap_eq_flatMap_toList]
    exact List.map_flatMap
  rw [← reportsAt.pairwise_iff h rfl, ← hplaces, List.pairwise_map]

end ConstantGlob

/-- **The checks that look into calls report in source order exactly if no call overtakes another.**
On a package description that was read, the places where arguments behind stars are reported never
decrease exactly if no call that has such an argument has in front of it, in what it calls or in
another argument, a call that has one too; and those where constant patterns are reported never
decrease exactly if in no list of patterns a glob that is reported stands in front of the first
constant pattern. -/
theorem Check.call_findings_in_order_iff {source path : String} {dialect : Option Dialect}
    {f : SourceFile} (hparse : SourceFile.parse source path dialect = .ok f)
    (hdialect : f.dialect = .build) (exempt : List String) (fix : Bool) :
    (((starArgs.run exempt fix f).findings.Pairwise fun a b => a.span.start ≤ b.span.start) ↔
      ∀ n ∈ f.statements.flatMap Node.nodes, ¬ n.Overtakes StarArgs.places StarArgs.Picks) ∧
    (((constantGlob.run exempt fix f).findings.Pairwise fun a b => a.span.start ≤ b.span.start) ↔
      ∀ n ∈ f.statements.flatMap Node.nodes,
        ¬ n.Overtakes ConstantGlob.places ConstantGlob.Picks) := by
  obtain ⟨-, stop, -, -, h⟩ := SourceFile.nestedIn_of_parse hparse
  have hknown : f.dialect ≠ .generic := by
    rw [hdialect]
    exact nofun
  exact ⟨StarArgs.pairwise_findings_iff h hdialect, ConstantGlob.pairwise_findings_iff h hknown⟩

/-- A call in an argument is overtaken by its outer call, and a glob among patterns by the outer
glob. -/
theorem Check.call_findings_in_order_iff_nested :
    ∃ f, SourceFile.parse "f(g(*a), *b)\nglob([glob(['x']), 'y'])\n" "BUILD" none = .ok f ∧
      f.dialect = .build ∧
      (starArgs.run [] false f).findings.map (·.span.start) = [⟨1, 10⟩, ⟨1, 5⟩] ∧
      (constantGlob.run [] false f).findings.map (·.span.start) = [⟨2, 20⟩, ⟨2, 13⟩] ∧
      (((starArgs.run [] false f).findings.Pairwise fun a b => a.span.start ≤ b.span.start) ↔
        ∀ n ∈ f.statements.flatMap Node.nodes, ¬ n.Overtakes StarArgs.places StarArgs.Picks) ∧
      (((constantGlob.run [] false f).findings.Pairwise fun a b => a.span.start ≤ b.span.start) ↔
        ∀ n ∈ f.statements.flatMap Node.nodes,
          ¬ n.Overtakes ConstantGlob.places ConstantGlob.Picks) := by
  let star (column : Int) (name : String) : Node :=
    .unary ⟨⟨1, column⟩, ⟨1, column + 2⟩⟩ "*" (.ident ⟨⟨1, column + 1⟩, ⟨1, column + 2⟩⟩ name)
  let call : Node := .call ⟨⟨1, 1⟩, ⟨1, 13⟩⟩ (.ident ⟨⟨1, 1⟩, ⟨1, 2⟩⟩ "f")
    [.call ⟨⟨1, 3⟩, ⟨1, 8⟩⟩ (.ident ⟨⟨1, 3⟩, ⟨1, 4⟩⟩ "g") [star 5 "a"], star 10 "b"]
  let glob (column stop : Int) (patterns : List Node) : Node :=
    .call ⟨⟨2, column⟩, ⟨2, stop⟩⟩ (.ident ⟨⟨2, column⟩, ⟨2, column + 4⟩⟩ "glob")
      [.list ⟨⟨2, column + 5⟩, ⟨2, stop - 1⟩⟩ patterns]
  let f : SourceFile := ⟨⟨⟨1, 1⟩, ⟨3, 1⟩⟩, "BUILD", .build,
    [call, glob 1 25 [glob 7 18 [.string ⟨⟨2, 13⟩, ⟨2, 16⟩⟩ "x"], .string ⟨⟨2, 20⟩, ⟨2, 23⟩⟩ "y"]]⟩
  have hparse : SourceFile.parse "f(g(*a), *b)\nglob([glob(['x']), 'y'])\n" "BUILD" none =
      .ok f := by cbv
  exact ⟨f, hparse, rfl, rfl, rfl, call_findings_in_order_iff hparse rfl [] false⟩

end StarlarkLint
