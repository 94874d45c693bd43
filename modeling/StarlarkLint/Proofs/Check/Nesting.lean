import StarlarkLint.Proofs.Check.Session
import StarlarkLint.Proofs.Grammar.Nesting

/-!
# Spans stay where they are

What the fix puts in place of a member takes over the span of the member, and has nothing below it.
So the spans of a file lie inside one another after any number of fixes, as they did when the file
was read, whatever checks are made on it.

## Main results

* `Native.nested_fixed` — a nested tree is nested after the fix.
* `SourceFile.spansNest_fileAfter` — the spans of a file that was read lie inside one another after
  any sequence of requests.
-/

namespace StarlarkLint

open StarlarkLint.Span (Row)

namespace Native

open Node

theorem map_span_fixed (ns : List Node) : (ns.map fixed).map span = ns.map span := by
  rw [List.map_map]
  exact List.map_congr_left fun n _ => span_fixed n

/-- **A nested tree is nested after the fix.** -/
theorem nested_fixed {n : Node} (h : n.Nested) : (fixed n).Nested := by
  induction n using induction_slots with
  | h n ih =>
    by_cases hn : n = hole
    · subst hn
      exact List.forall_mem_nil _
    obtain ⟨⟨hlt, hrow⟩, hslots⟩ := (nested_iff hn).mp h
    cases hglobal : global? n with
    | some name =>
      rw [fixed_of_global?_eq_some hglobal]
      have hname : Row n.span.start [(Node.ident n.span name).span] n.span.stop :=
        .singleton (Position.le_refl _) hlt (Position.le_refl _)
      exact nested_of_slots_eq_nil rfl hname
    | none =>
      rw [fixed_of_global?_eq_none hglobal]
      have hfixed : n.mapSlots fixed ≠ hole := fun heq => hn (mapSlots_eq_hole_iff.mp heq)
      refine (nested_iff hfixed).mpr ⟨?_, ?_⟩
      · rw [span_mapSlots, slots_mapSlots, map_span_fixed]
        exact ⟨hlt, hrow⟩
      · rw [slots_mapSlots]
        exact List.forall_mem_map.mpr fun m hm => ih m hm (hslots m hm)

/-- The statements of a file stay in their row. -/
theorem nestedIn_fix {stop : Position} {f : SourceFile} (h : f.NestedIn stop) :
    (fix f).NestedIn stop := by
  by_cases hdialect : f.dialect = .build
  · rw [fix_of_dialect_eq hdialect]
    refine ⟨h.span_eq, ?_, List.forall_mem_map.mpr fun n hn => nested_fixed (h.nested n hn)⟩
    exact (map_span_fixed f.statements).symm ▸ h.row
  · rw [fix_of_dialect_ne hdialect]
    exact h

end Native

/-- In a file that is nested up to its end every node stands between the origin and the end, with
its children inside it, and only the file itself may be empty. -/
theorem SourceFile.NestedIn.spansNest {stop : Position} {f : SourceFile} (h : f.NestedIn stop) :
    (∀ n ∈ f.statements.flatMap Node.nodes, n.span.start < n.span.stop) ∧
      ∀ n ∈ f.node.nodes, n.SpansNest ∧ Position.origin ≤ n.span.start ∧ n.span.stop ≤ stop := by
  have hbelow : ∀ n ∈ f.statements.flatMap Node.nodes, ∃ m ∈ f.statements, n ∈ m.nodes := by
    intro n hn
    exact List.mem_flatMap.mp hn
  constructor
  · intro n hn
    obtain ⟨m, hm, hnm⟩ := hbelow n hn
    exact (h.nested m hm n hnm).1
  · rw [Node.nodes_eq (n := f.node) nofun]
    refine List.forall_mem_cons.mpr ⟨⟨?_, ?_⟩, fun n hn => ?_⟩
    · apply Node.spansNest_of_row
      show Row f.span.start (f.statements.map Node.span) f.span.stop
      rw [h.span_eq]
      exact h.row
    · show Position.origin ≤ f.span.start ∧ f.span.stop ≤ stop
      rw [h.span_eq]
      exact ⟨Position.le_refl _, Position.le_refl _⟩
    · obtain ⟨m, hm, hnm⟩ := hbelow n hn
      obtain ⟨hstart, -, hstop⟩ := h.row.bounds m.span (List.mem_map_of_mem hm)
      obtain ⟨hfrom, hto⟩ := (h.nested m hm).inside n hnm
      refine ⟨Node.spansNest_of_row (h.nested m hm n hnm).2, ?_, ?_⟩
      · exact Position.le_trans hstart hfrom
      · exact Position.le_trans hto hstop

/-- **The spans of a file that was read lie inside one another after any sequence of requests**:
every node below the file takes up some text, its children stand inside it one behind the other, and
all stand between the origin and the mark of the end. -/
theorem SourceFile.spansNest_fileAfter {source path : String} {dialect : Option Dialect}
    {f : SourceFile} (hparse : SourceFile.parse source path dialect = .ok f)
    (rs : List Request) : ∃ ts stop, tokens source = .ok ts ∧ ts.getLast? = some stop ∧
      stop.kind = .endOfFile ∧
      let g := Request.fileAfter f rs
      (∀ n ∈ g.statements.flatMap Node.nodes, n.span.start < n.span.stop) ∧
        ∀ n ∈ g.node.nodes, n.SpansNest ∧ Position.origin ≤ n.span.start ∧
          n.span.stop ≤ stop.span.stop := by
  obtain ⟨ts, q, hts, hlast, hnested⟩ := nestedIn_of_parse hparse
  have hafter : (Request.fileAfter f rs).NestedIn q :=
    Request.fileAfter_preserves (P := NestedIn q) (fun _ => Native.nestedIn_fix) rs hnested
  exact ⟨ts, .endAt q, hts, hlast, rfl, hafter.spansNest⟩

/-- The parentheses widen the span of the sum, and the name takes up the text of the member. -/
theorem SourceFile.spansNest_fileAfter_native :
    let requests : List Request := [⟨.nativeBuild, true, []⟩, ⟨.constantGlob, false, []⟩]
    ∃ f, SourceFile.parse "x = (native.y + z)\n" "BUILD" none = .ok f ∧
      (Request.fileAfter f requests).statements =
        [.assign ⟨⟨1, 1⟩, ⟨1, 19⟩⟩ (.ident ⟨⟨1, 1⟩, ⟨1, 2⟩⟩ "x") "="
          (.binary ⟨⟨1, 5⟩, ⟨1, 19⟩⟩ "+" (.ident ⟨⟨1, 6⟩, ⟨1, 14⟩⟩ "y")
            (.ident ⟨⟨1, 17⟩, ⟨1, 18⟩⟩ "z"))] ∧
      ∃ ts stop, tokens "x = (native.y + z)\n" = .ok ts ∧ ts.getLast? = some stop ∧
        stop.kind = .endOfFile ∧
        let g := Request.fileAfter f requests
        (∀ n ∈ g.statements.flatMap Node.nodes, n.span.start < n.span.stop) ∧
          ∀ n ∈ g.node.nodes, n.SpansNest ∧ Position.origin ≤ n.span.start ∧
            n.span.stop ≤ stop.span.stop := by
  intro requests
  let member : Node := .member ⟨⟨1, 6⟩, ⟨1, 14⟩⟩ (.ident ⟨⟨1, 6⟩, ⟨1, 12⟩⟩ "native") "y"
  let f : SourceFile :=
    ⟨⟨⟨1, 1⟩, ⟨2, 1⟩⟩, "BUILD", .build,
      [.assign ⟨⟨1, 1⟩, ⟨1, 19⟩⟩ (.ident ⟨⟨1, 1⟩, ⟨1, 2⟩⟩ "x") "="
        (.binary ⟨⟨1, 5⟩, ⟨1, 19⟩⟩ "+" member (.ident ⟨⟨1, 17⟩, ⟨1, 18⟩⟩ "z"))]⟩
  have hparse : SourceFile.parse "x = (native.y + z)\n" "BUILD" none = .ok f := by cbv
  exact ⟨f, hparse, rfl, spansNest_fileAfter hparse requests⟩

end StarlarkLint
