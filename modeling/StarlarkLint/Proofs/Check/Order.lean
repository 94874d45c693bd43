import StarlarkLint.Proofs.Check.Name
import StarlarkLint.Proofs.Grammar.Nesting

/-!
# The order of findings

In a tree that was read, a node that a walk meets later is either below an earlier one or behind it.
A check whose nodes never stand at the start of one another therefore reports in source order, and
no place twice: below a member of the native module there is but a name, and a call of its package
function starts with a callee in which nothing is called.  A check that looks at the statements
alone reports on each what stands inside it, and statements stand in a row.

## Main results

* `SourceFile.NestedIn.pairwise_filter`, `Span.Row.pairwise_filterMap` — what is picked from the
  nodes of a file, and from its statements, comes in order.
* `Check.findings_in_order` — four of the checks report in source order.
-/

namespace StarlarkLint

open StarlarkLint.Span (Row)

/-! ### What is picked from a file -/

variable {f : SourceFile} {stop : Position}

/-- **Nodes that never stand at the start of one another come in source order.** -/
theorem SourceFile.NestedIn.pairwise_filter (h : f.NestedIn stop) {r : Node → Bool}
    (hfile : r f.node = false)
    (hbelow : ∀ n : Node, n.Nested → r n = true → ∀ m ∈ n.slots.flatMap Node.nodes, r m = true →
      n.span.start < m.span.start) :
    (f.node.nodes.filter r).Pairwise fun n m => n.span.start < m.span.start := by
  have hnodes : f.node.nodes = f.node :: f.statements.flatMap Node.nodes := Node.nodes_eq nofun
  have hfollows : (f.statements.flatMap Node.nodes).Pairwise Node.Follows :=
    Node.pairwise_flatMap_nodes h.row h.nested fun n hn => (h.nested n hn).pairwise_nodes
  have hnested : ∀ n ∈ f.statements.flatMap Node.nodes,
      n.span.start < n.span.stop ∧ n.Nested := by
    intro n hn
    obtain ⟨m, hm, hn⟩ := List.mem_flatMap.mp hn
    exact ⟨(h.nested m hm n hn).1, (h.nested m hm).of_mem_nodes hn⟩
  rw [hnodes, List.filter_cons, hfile, if_neg Bool.false_ne_true, List.pairwise_filter]
  apply hfollows.imp_of_mem
  intro n m hn _ hnm hrn hrm
  obtain ⟨hlt, hn⟩ := hnested n hn
  rcases hnm with hnm | hnm
  · exact hbelow n hn hrn m hnm hrm
  · exact Position.lt_of_lt_of_le hlt hnm

/-- **What stands inside the statements of a file comes in source order.** -/
theorem Span.Row.pairwise_filterMap {α : Type} {g : Node → Option α} {place : α → Span}
    {ns : List Node} {p q : Position} (hrow : Row p (ns.map Node.span) q)
    (hinside : ∀ n ∈ ns, ∀ a, g n = some a → Row n.span.start [place a] n.span.stop) :
    (ns.filterMap g).Pairwise fun a b => (place a).start < (place b).start := by
  rw [List.pairwise_filterMap]
  apply (List.pairwise_map.mp hrow.pairwise).imp_of_mem
  intro n m hn hm hapart a ha b hb
  obtain ⟨-, hlt, hstop⟩ := (hinside n hn a ha).bounds _ List.mem_cons_self
  obtain ⟨hstart, -, -⟩ := (hinside m hm b hb).bounds _ List.mem_cons_self
  have hbefore := Position.lt_of_lt_of_le hlt (Position.le_trans hstop hapart)
  exact Position.lt_of_lt_of_le hbefore hstart

/-! ### Four of the checks -/

namespace Native

open Node

/-- Below a member of the native module there is but a name. -/
theorem global?_below {n m : Node} (hn : (global? n).isSome = true)
    (hm : m ∈ n.slots.flatMap nodes) : (global? m).isSome = false := by
  obtain ⟨name, hname⟩ := Option.isSome_iff_exists.mp hn
  obtain ⟨s, s', rfl, -⟩ := global?_eq_some_iff.mp hname
  obtain rfl : m = ident s' "native" := by simpa [slots, nodes, walk, walkFrom] using hm
  rfl

/-- What a call of the package function calls is the member of that name. -/
theorem callsPackage_iff {n : Node} : callsPackage n = true ↔
    ∃ s s' s'' args, n = .call s (.member s' (.ident s'' "native") "package") args := by
  constructor
  · intro h
    cases n with
    | call s callee args =>
      rw [callsPackage, beq_iff_eq] at h
      cases callee with
      | member s' base name =>
        cases base with
        | ident s'' root =>
          rw [member?, Option.ite_none_right_eq_some, Option.some.injEq] at h
          obtain ⟨rfl, rfl⟩ := h
          exact ⟨s, s', s'', args, rfl⟩
        | _ => cases h
      | _ => cases h
    | _ => cases h
  · rintro ⟨s, s', s'', args, rfl⟩
    rfl

/-- Below a call of the package function another one can only stand in the arguments. -/
theorem start_lt_of_callsPackage {n m : Node} (h : n.Nested) (hn : callsPackage n = true)
    (hm : m ∈ n.slots.flatMap nodes) (hcalls : callsPackage m = true) :
    n.span.start < m.span.start := by
  have hhole : n ≠ hole := by
    rintro rfl
    cases hn
  obtain ⟨⟨-, hrow⟩, hslots⟩ := (nested_iff hhole).mp h
  obtain ⟨s, s', s'', args, rfl⟩ := callsPackage_iff.mp hn
  rw [slots, List.map_cons] at hrow
  obtain ⟨hcallee, hargs⟩ := hrow.uncons
  obtain ⟨hstart, hlt, -⟩ := hcallee.bounds _ List.mem_cons_self
  rw [slots, List.flatMap_cons, List.mem_append, List.mem_flatMap] at hm
  rcases hm with hm | ⟨arg, harg, hm⟩
  · -- the callee is built of a name, and nothing is called there
    have hnone : callsPackage m = false := by
      simp only [nodes, walk, walkFrom, List.map_cons, List.map_nil, List.mem_cons,
        List.not_mem_nil, or_false] at hm
      rcases hm with rfl | rfl <;> rfl
    rw [hnone] at hcalls
    cases hcalls
  · have hbehind := (hargs.bounds arg.span (List.mem_map_of_mem harg)).1
    have hinside := ((hslots arg (List.mem_cons_of_mem _ harg)).inside m hm).1
    have hcallee := Position.lt_of_le_of_lt hstart hlt
    exact Position.lt_of_lt_of_le hcallee (Position.le_trans hbehind hinside)

theorem pairwise_findings (h : f.NestedIn stop) :
    (findings f).Pairwise fun a b => a.span.start < b.span.start := by
  rw [findings]
  split
  · refine List.pairwise_map.mpr (h.pairwise_filter rfl fun n _ hn m hm hglobal => ?_)
    rw [global?_below hn hm] at hglobal
    cases hglobal
  · exact .nil

theorem pairwise_packageFindings (h : f.NestedIn stop) :
    (packageFindings f).Pairwise fun a b => a.span.start < b.span.start := by
  rw [packageFindings]
  split
  · refine List.pairwise_map.mpr (h.pairwise_filter rfl fun n hn hcalls m hm hbelow => ?_)
    exact start_lt_of_callsPackage hn hcalls hm hbelow
  · exact .nil

end Native

namespace DuplicatedName

/-- The literal with which a statement names itself stands inside the statement. -/
theorem row_of_given? {n : Node} (h : n.Nested) {name : String} {literal : Span}
    (hgiven : given? n = some (name, literal)) : Row n.span.start [literal] n.span.stop := by
  cases given?_eq_some_iff.mp hgiven with
  | @intro call assign target _ callee kind op _ before after =>
    let argument : Node := .assign assign (.ident target "name") op (.string literal name)
    have hslot : argument ∈ (Node.call call callee (before ++ argument :: after)).slots :=
      List.mem_cons_of_mem _ (List.mem_append_right before List.mem_cons_self)
    have hvalue : Node.string literal name ∈ argument.slots := by
      simp [argument, Node.slots]
    obtain ⟨hargument, hnested⟩ := h.row_of_mem_slots hslot
    obtain ⟨hstart, -, hstop⟩ := hargument.bounds _ List.mem_cons_self
    exact (hnested.row_of_mem_slots hvalue).1.widen hstart hstop

/-- The names that were given before are some of the names. -/
theorem map_fst_repeated_sublist (given : List (String × Span)) :
    ((repeated given).map Prod.fst).Sublist given := by
  induction given using List.reverseRecOn with
  | nil => exact .slnil
  | append_singleton given d ih =>
    rw [repeated_concat, List.map_append]
    refine ih.append ?_
    cases first? given d.1 with
    | none => exact List.nil_sublist _
    | some first => exact List.Sublist.refl _

theorem pairwise_findings (h : f.NestedIn stop) :
    (findings f).Pairwise fun a b => a.span.start < b.span.start := by
  by_cases hdialect : f.dialect = .build
  · have hgiven : (f.statements.filterMap given?).Pairwise fun a b => a.2.start < b.2.start :=
      h.row.pairwise_filterMap fun n hn _ => row_of_given? (h.nested n hn)
    have hrepeated := List.pairwise_map.mp (hgiven.sublist (map_fst_repeated_sublist _))
    rw [findings_eq_map_repeated hdialect]
    exact List.pairwise_map.mpr hrepeated
  · rw [findings, if_neg hdialect]
    exact .nil

end DuplicatedName

namespace PositionalArgs

variable (exempt : List String)

/-- The argument that is reported stands inside the statement. -/
theorem row_of_argument? {n argument : Node} (h : n.Nested)
    (hargument : argument? exempt n = some argument) :
    Row n.span.start [argument.span] n.span.stop := by
  refine (h.row_of_mem_slots ?_).1
  unfold argument? at hargument
  split at hargument
  · rw [Option.ite_none_left_eq_some] at hargument
    exact List.mem_cons_of_mem _ (List.mem_of_find?_eq_some hargument.2)
  · cases hargument

theorem pairwise_findings (h : f.NestedIn stop) :
    (findings exempt f).Pairwise fun a b => a.span.start < b.span.start := by
  refine h.row.pairwise_filterMap fun n hn finding hfinding => ?_
  obtain ⟨argument, hargument, rfl⟩ := Option.map_eq_some_iff.mp hfinding
  exact row_of_argument? exempt (h.nested n hn) hargument

end PositionalArgs

/-- **Findings come in source order, and no place twice.**  On a file that was read, whatever its
dialect, each of the checks for members of the native module, for calls of its package function, for
duplicated names and for positional arguments reports places that are strictly increasing. -/
theorem Check.findings_in_order {source path : String} {dialect : Option Dialect} {f : SourceFile}
    (hparse : SourceFile.parse source path dialect = .ok f) (exempt : List String) (fix : Bool) :
    ∀ check ∈ [nativeBuild, nativePackage, duplicatedName, positionalArgs],
      (check.run exempt fix f).findings.Pairwise fun a b => a.span.start < b.span.start := by
  obtain ⟨-, stop, -, -, h⟩ := SourceFile.nestedIn_of_parse hparse
  simp only [List.forall_mem_cons, List.not_mem_nil, false_implies, implies_true, and_true]
  refine ⟨?_, Native.pairwise_packageFindings h, DuplicatedName.pairwise_findings h,
    PositionalArgs.pairwise_findings exempt h⟩
  cases fix with
  | false => exact Native.pairwise_findings h
  | true => exact .nil

/-- Members of the native module in the callee, in a callee in parentheses and in an argument of an
argument. -/
theorem Check.findings_in_order_native_calls :
    ∃ f, SourceFile.parse "native.r((native.x)(native.y))\n" "BUILD" none = .ok f ∧
      (nativeBuild.run [] false f).findings.map (·.span.start) = [⟨1, 1⟩, ⟨1, 10⟩, ⟨1, 21⟩] ∧
      ∀ check ∈ [nativeBuild, nativePackage, duplicatedName, positionalArgs],
        (check.run [] false f).findings.Pairwise fun a b => a.span.start < b.span.start := by
  let native (column : Int) (stop : Int) (inner : Int) (name : String) : Node :=
    .member ⟨⟨1, column⟩, ⟨1, stop⟩⟩ (.ident ⟨⟨1, inner⟩, ⟨1, inner + 6⟩⟩ "native") name
  let argument : Node := .call ⟨⟨1, 10⟩, ⟨1, 30⟩⟩ (native 10 20 11 "x") [native 21 29 21 "y"]
  let f : SourceFile :=
    ⟨⟨⟨1, 1⟩, ⟨2, 1⟩⟩, "BUILD", .build,
      [.call ⟨⟨1, 1⟩, ⟨1, 31⟩⟩ (native 1 9 1 "r") [argument]]⟩
  have hparse : SourceFile.parse "native.r((native.x)(native.y))\n" "BUILD" none = .ok f := by
    cbv
  exact ⟨f, hparse, rfl, findings_in_order hparse [] false⟩

end StarlarkLint
