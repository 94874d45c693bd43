import Mathlib
import StarlarkLint.Check.Run
import StarlarkLint.Proofs.Grammar.Nesting
import StarlarkLint.Proofs.Grammar.Stars

/-!
# No two stars escape

The check for arguments behind stars goes through the calls of a file, wherever they stand, and
through nothing else.  So what it says about arguments behind two stars is said once for each two
stars in the text, but for those that stand in front of an argument of a load.

## Main definitions

* `SourceFile.loadKwargs` — the arguments behind two stars of the loads of a file.

## Main results

* `StarArgs.map_span_findings` — what is reported are the arguments behind two stars of the calls.
* `StarArgs.exists_kwargsIn` — they and those of loads are what the tokens of the text hold.
* `StarArgs.no_kwargs_escape` — what is reported, by the tokens of the text.
-/

namespace StarlarkLint

/-- The arguments behind two stars of the loads of a file. -/
def SourceFile.loadKwargs (f : SourceFile) : List Span := f.statements.flatMap Node.loadKwargs

namespace StarArgs

/-- What is said about an argument behind two stars. -/
def kwargsMessage : String := "**kwargs are not allowed in BUILD files."

/-! ### What is reported -/

theorem filter_message? (op : String) :
    (message? op).filter (· = kwargsMessage) = if op = "**" then some kwargsMessage else none := by
  unfold message?
  split
  · rfl
  · rfl
  · next hother => rw [if_neg hother, Option.filter_none]

/-- What is said about two stars is said about an argument behind them. -/
theorem ofArgument?_kwargs (n : Node) :
    ((ofArgument? n).filter (·.2 = kwargsMessage)).map Prod.fst = n.kwarg? := by
  cases n with
  | unary span op operand =>
    have hfilter : (ofArgument? (.unary span op operand)).filter (·.2 = kwargsMessage) =
        ((message? op).filter (· = kwargsMessage)).map (span, ·) := by
      rw [ofArgument?]
      cases message? op with
      | none => rfl
      | some message =>
        rw [Option.map_some, Option.filter_some, Option.filter_some]
        split <;> rfl
    rw [hfilter, filter_message?, Node.kwarg?]
    split <;> rfl
  | _ => rfl

theorem ofCall_kwargs (n : Node) :
    ((ofCall n).filter (·.2 = kwargsMessage)).map Prod.fst = n.ownKwargs := by
  cases n with
  | call span callee args =>
    rw [ofCall, List.filter_filterMap, List.map_filterMap, Node.ownKwargs]
    exact List.filterMap_congr fun n _ => ofArgument?_kwargs n
  | _ => rfl

/-- **The arguments behind two stars of the calls of a file are reported**, at their spans. -/
theorem map_span_findings {f : SourceFile} (h : f.dialect = .build) :
    ((findings f).filter (·.message = kwargsMessage)).map (·.span) =
      f.statements.flatMap Node.kwargs := by
  have hnode : f.node.kwargs = f.statements.flatMap Node.kwargs := Node.kwargs_of_slots rfl
  rw [findings, if_pos h, List.filter_map, List.map_map, ← hnode, Node.kwargs, Node.nodes]
  have hspans : (((f.node.walk.map (·.1)).flatMap ofCall).filter (·.2 = kwargsMessage)).map
      Prod.fst = (f.node.walk.map (·.1)).flatMap Node.ownKwargs := by
    rw [List.filter_flatMap, List.map_flatMap]
    exact List.flatMap_congr fun n _ => ofCall_kwargs n
  exact hspans

/-! ### What the tokens hold -/

section

variable {source path : String} {dialect : Option Dialect} {f : SourceFile}

/-- What is reported and what stands in loads hold all stars, each of them once. -/
theorem exists_kwargsIn (hparse : SourceFile.parse source path dialect = .ok f) :
    ∃ ts, tokens source = .ok ts ∧ Grammar.Readable ts ∧
      Grammar.KwargsIn ts (f.loadKwargs ++ f.statements.flatMap Node.kwargs) := by
  obtain ⟨ts, hts, hf⟩ := Grammar.parse_eq_ok_iff.mp hparse
  obtain ⟨r, hr, rfl⟩ := Grammar.ofTokens_eq_ok_iff.mp hf
  have htokens := Grammar.tokensOf_of_tokens hts
  have hready := Grammar.readable_of_tokensOf htokens
  obtain ⟨hplaced, -⟩ := Grammar.statements_placed ts hready.spelled hready.marked hr
  exact ⟨ts, hts, hready, hplaced.kwargsIn (Grammar.prefixSpelled_of_tokensOf htokens)⟩

/-- No two stars of a text start at the same place. -/
theorem nodup_starts {ts : List Token} (hts : tokens source = .ok ts) :
    ((ts.filter (·.kind = .doubleStar)).map (·.span.start)).Nodup := by
  obtain ⟨q, -, hrow⟩ := exists_row_of_tokens hts
  have hsub :
      ((ts.filter (·.kind = .doubleStar)).map Token.span).Sublist (Grammar.placesOf ts) := by
    refine List.Sublist.map _ (List.monotone_filter_right ts fun t ht => ?_)
    simp only [decide_eq_true_eq] at ht ⊢
    simp [ht]
  have hnodup := (hrow.sublist hsub).nodup_starts
  rwa [List.map_map] at hnodup

/-- Of what there is once, what is not in the one part is the other part. -/
theorem perm_filter_of_perm_append {α : Type} [DecidableEq α] {xs ys zs : List α}
    (h : (xs ++ ys).Perm zs) (hnodup : zs.Nodup) : ys.Perm (zs.filter (· ∉ xs)) := by
  obtain ⟨-, -, hapart⟩ := List.nodup_append.mp (h.nodup_iff.mpr hnodup)
  have hxs : xs.filter (· ∉ xs) = [] := by simp
  have hys : ys.filter (· ∉ xs) = ys := by
    apply List.filter_eq_self.mpr
    intro y hy
    rw [decide_eq_true_eq]
    intro hx
    exact hapart y hx y hy rfl
  have hfilter := h.filter (· ∉ xs)
  rwa [List.filter_append, hxs, hys] at hfilter

/-- **No two stars escape.**  On a package description that was read, the places at which arguments
behind two stars are reported are those of the two stars among the tokens that do not stand in front
of an argument of a load, each of them once; and what is reported ends where the value ends that is
read from behind the stars on. -/
theorem no_kwargs_escape (hparse : SourceFile.parse source path dialect = .ok f)
    (hdialect : f.dialect = .build) (exempt : List String) (fix : Bool) :
    ∃ ts, tokens source = .ok ts ∧
      let kwargs := (Check.starArgs.run exempt fix f).findings.filter
        (·.message = "**kwargs are not allowed in BUILD files.")
      (kwargs.map (·.span.start)).Perm
        ((ts.filter fun t => t.kind = .doubleStar ∧
          t.span.start ∉ f.loadKwargs.map Span.start).map (·.span.start)) ∧
      ∀ finding ∈ kwargs, ∃ front star rest n behind, ts = front ++ star :: rest ∧
        star.kind = .doubleStar ∧ finding.span.start = star.span.start ∧
        Grammar.Yields (Grammar.expression 0 rest) n behind ∧
        finding.span.stop = n.span.stop := by
  obtain ⟨ts, hts, hready, hin⟩ := exists_kwargsIn hparse
  refine ⟨ts, hts, ?_⟩
  intro kwargs
  have hspans : kwargs.map (·.span) = f.statements.flatMap Node.kwargs :=
    map_span_findings hdialect
  rw [← hspans] at hin
  constructor
  · have hperm := hin.perm_starts
    rw [List.map_append, List.map_map] at hperm
    have hrest := perm_filter_of_perm_append hperm (nodup_starts hts)
    rw [List.filter_map, List.filter_filter] at hrest
    have hfilter : (ts.filter fun t => t.kind = .doubleStar ∧
        t.span.start ∉ f.loadKwargs.map Span.start) = ts.filter fun t =>
          ((· ∉ f.loadKwargs.map Span.start) ∘ fun t => t.span.start) t &&
            decide (t.kind = .doubleStar) := by
      apply List.filter_congr
      intro t _
      simp [Bool.and_comm]
    rw [hfilter]
    exact hrest
  · intro finding hfinding
    have hmem : finding.span ∈ f.loadKwargs ++ kwargs.map (·.span) :=
      List.mem_append_right _ (List.mem_map_of_mem hfinding)
    exact hin.exists_yields hready.spelled finding.span hmem

end

/-- Two stars in a load are passed over, and those of a call in an argument stand in front of those
behind it. -/
theorem no_kwargs_escape_load :
    ∃ f, SourceFile.parse "load('a', **x)\nf(g(**y), **z.w)\n" "BUILD" none = .ok f ∧
      f.dialect = .build ∧ f.loadKwargs = [⟨⟨1, 11⟩, ⟨1, 14⟩⟩] ∧
      let kwargs := (Check.starArgs.run [] false f).findings.filter
        (·.message = "**kwargs are not allowed in BUILD files.")
      kwargs.map (·.span) = [⟨⟨2, 11⟩, ⟨2, 16⟩⟩, ⟨⟨2, 5⟩, ⟨2, 8⟩⟩] ∧
      ∃ ts, tokens "load('a', **x)\nf(g(**y), **z.w)\n" = .ok ts ∧
        (kwargs.map (·.span.start)).Perm
          ((ts.filter fun t => t.kind = .doubleStar ∧
            t.span.start ∉ f.loadKwargs.map Span.start).map (·.span.start)) ∧
        ∀ finding ∈ kwargs, ∃ front star rest n behind, ts = front ++ star :: rest ∧
          star.kind = .doubleStar ∧ finding.span.start = star.span.start ∧
          Grammar.Yields (Grammar.expression 0 rest) n behind ∧
          finding.span.stop = n.span.stop := by
  let load : Node := .load ⟨⟨1, 1⟩, ⟨1, 15⟩⟩ (.string ⟨⟨1, 6⟩, ⟨1, 9⟩⟩ "a")
    [.unary ⟨⟨1, 11⟩, ⟨1, 14⟩⟩ "**" (.ident ⟨⟨1, 13⟩, ⟨1, 14⟩⟩ "x")]
  let inner : Node := .call ⟨⟨2, 3⟩, ⟨2, 9⟩⟩ (.ident ⟨⟨2, 3⟩, ⟨2, 4⟩⟩ "g")
    [.unary ⟨⟨2, 5⟩, ⟨2, 8⟩⟩ "**" (.ident ⟨⟨2, 7⟩, ⟨2, 8⟩⟩ "y")]
  let outer : Node := .call ⟨⟨2, 1⟩, ⟨2, 17⟩⟩ (.ident ⟨⟨2, 1⟩, ⟨2, 2⟩⟩ "f")
    [inner, .unary ⟨⟨2, 11⟩, ⟨2, 16⟩⟩ "**"
      (.member ⟨⟨2, 13⟩, ⟨2, 16⟩⟩ (.ident ⟨⟨2, 13⟩, ⟨2, 14⟩⟩ "z") "w")]
  have hparse : SourceFile.parse "load('a', **x)\nf(g(**y), **z.w)\n" "BUILD" none =
      .ok ⟨⟨⟨1, 1⟩, ⟨3, 1⟩⟩, "BUILD", .build, [load, outer]⟩ := by cbv
  exact ⟨_, hparse, rfl, rfl, rfl, no_kwargs_escape hparse rfl [] false⟩

end StarArgs

end StarlarkLint
