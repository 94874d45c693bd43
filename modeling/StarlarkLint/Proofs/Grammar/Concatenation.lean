import Mathlib
import StarlarkLint.Proofs.Grammar.Balance
import StarlarkLint.Proofs.Grammar.Recognition
import StarlarkLint.Proofs.Grammar.Relocation
import StarlarkLint.Proofs.Token.Tiling

/-!
# One text below another

Nothing of what is read leaks into what is read next.  Behind a text that spells a file no bracket
is open, and its last token is the same when a line feed follows; so two such texts can be put below
each other, and the file that they spell together has the statements of the first, where they were,
and behind them those of the second, as many lines further down as it was put.

## Main definitions

* `Node.lowered` — a tree that stands some lines further down.

## Main results

* `tokens_append` — the tokens of two texts, the one below the other.
* `SourceFile.parse_append` — the file that they spell.
-/

namespace StarlarkLint

/-! ### Tokens -/

/-- A lexeme that a text ends with, or with a gap behind it, is the same in front of a line feed: it
is not told from what comes next, and a comment ends there. -/
theorem Lexeme.Heads.append_lineFeed {text pre : List Char} {s : Symbol} (h : Heads text s pre)
    (rest : List Char) : Heads text s (pre ++ '\n' :: rest) := by
  have hdetached : Detached ('\n' :: rest) := by
    rintro _ ⟨⟩
    exact ⟨by decide, by decide, by decide⟩
  have hfeed : ∀ c ∈ ('\n' :: rest).head?, c = '\n' := by
    rintro _ ⟨⟩
    rfl
  rw [← List.append_nil pre] at h
  exact h.exchange (fun _ _ => hfeed) hdetached

namespace Passes

variable {depth depth' : Nat} {p p' : Position} {cs rest : List Char} {ts : List Token}

/-- What is passed in a text is passed when the text is continued on another line. -/
theorem append_lineFeed (h : Passes depth p cs ts depth' p' rest) (more : List Char) :
    Passes depth p (cs ++ '\n' :: more) ts depth' p' (rest ++ '\n' :: more) := by
  induction h with
  | done => exact .done
  | token hgap hheads hcounts hspan _ ih =>
    rw [List.append_assoc, List.append_assoc]
    exact .token hgap (hheads.append_lineFeed more) hcounts hspan ih

/-- What is passed in a text is passed when it stands further down. -/
theorem lowered (h : Passes depth p cs ts depth' p' rest) (lines : Nat) :
    Passes depth (p.lowered lines) cs (ts.map (Token.moved (.lowered lines))) depth'
      (p'.lowered lines) rest := by
  induction h with
  | done => exact .done
  | token hgap hheads hcounts hspan _ ih =>
    rw [List.map_cons]
    refine .token hgap hheads hcounts ?_ ?_
    · rw [Token.span_moved, hspan, Position.through_lowered, Position.through_lowered]
      rfl
    · rw [Position.through_lowered]
      exact ih

theorem trans {depth'' : Nat} {p'' : Position} {mid : List Char} {us : List Token}
    (h : Passes depth p cs ts depth' p' mid) (h' : Passes depth' p' mid us depth'' p'' rest) :
    Passes depth p cs (ts ++ us) depth'' p'' rest := by
  induction h with
  | done => exact h'
  | token hgap hheads hcounts hspan _ ih => exact .token hgap hheads hcounts hspan (ih h')

/-- The number of open brackets is told from the tokens, comments left out. -/
theorem depth_eq (h : Passes depth p cs ts depth' p' rest) :
    depth' = depthAfterAll depth ((ts.filter (·.kind ≠ .comment)).map Token.symbol) := by
  induction h with
  | done => rfl
  | @token depth _ p _ gap text cs _ t ts _ _ _ _ _ ih =>
    by_cases hkind : t.kind = .comment
    · rw [ih, List.filter_cons_of_neg (by simp [hkind]), hkind]
      rfl
    · rw [ih, List.filter_cons_of_pos (by simp [hkind])]
      rfl

end Passes

/-- The line feed behind a text, as a token. -/
def Token.feedBehind (cs : List Char) : Token :=
  ⟨.newline, "\n", ⟨.behind cs, .behind (cs ++ ['\n'])⟩⟩

/-- Behind a text that leaves no bracket open, the line feed and what stands on the next line are
passed as they are at the beginning of a text, only further down. -/
theorem Passes.lineFeed {p q : Position} {cs gap more rest : List Char} {ts us : List Token}
    {depth : Nat} (h : Passes 0 .origin cs ts 0 p gap) (hgap : Gap 0 gap)
    (hmore : Passes 0 .origin more us depth q rest) :
    Passes 0 .origin (cs ++ '\n' :: more)
      (ts ++ .feedBehind cs :: us.map (Token.moved (.lowered (cs.count '\n' + 1)))) depth
      (q.lowered (cs.count '\n' + 1)) rest := by
  obtain ⟨used, hcs, rfl, -⟩ := h.exists_used
  have hplace : (Position.origin.through used).through gap = .behind cs := by
    rw [← Position.through_append, ← hcs, Position.through_origin]
  have hnext : (Position.origin.through used).through (gap ++ ['\n']) = .behind (cs ++ ['\n']) := by
    rw [Position.through_append, hplace, Position.through_behind]
  have hlowered := hmore.lowered (cs.count '\n' + 1)
  rw [← Position.behind_lineFeed, ← hnext] at hlowered
  have hspan : (Token.feedBehind cs).span = ⟨(Position.origin.through used).through gap,
      (Position.origin.through used).through (gap ++ ['\n'])⟩ := by
    rw [hplace, hnext]
    rfl
  have hfeed := Passes.token (t := .feedBehind cs) hgap (Lexeme.heads_newline more) rfl hspan
    hlowered
  exact (h.append_lineFeed more).trans hfeed

/-- **The tokens of two texts, the one below the other.**  The first text gives up the mark of its
end; it leaves no bracket open, so that the line feed behind it is a token. -/
theorem tokens_append {s₁ s₂ : String} {ts us : List Token} {stop : Token}
    (h₁ : tokens s₁ = .ok (ts ++ [stop])) (hclosed : depthAfterAll 0 (ts.map Token.symbol) = 0)
    (h₂ : tokens s₂ = .ok us) :
    tokens (s₁ ++ "\n" ++ s₂) = .ok (ts ++ .feedBehind s₁.toList ::
      us.map (Token.moved (.lowered (s₁.toList.count '\n' + 1)))) := by
  obtain ⟨body₁, depth₁, p₁, gap₁, hbody₁, hgap₁, hts⟩ := tokens_eq_ok_iff.mp h₁
  obtain ⟨body₂, depth₂, p₂, gap₂, hbody₂, hgap₂, rfl⟩ := tokens_eq_ok_iff.mp h₂
  obtain ⟨rfl, -⟩ := List.append_inj' hts rfl
  obtain rfl : depth₁ = 0 := hbody₁.depth_eq.trans hclosed
  have hsource : (s₁ ++ "\n" ++ s₂).toList = s₁.toList ++ '\n' :: s₂.toList := by simp
  have hpasses := hbody₁.lineFeed hgap₁ hbody₂
  rw [← hsource] at hpasses
  refine tokens_eq_ok_iff.mpr ⟨_, depth₂, _, gap₂, hpasses, hgap₂, ?_⟩
  have hcomments : (body₂.map (Token.moved (.lowered (s₁.toList.count '\n' + 1)))).filter
      (·.kind ≠ .comment) = (body₂.filter (·.kind ≠ .comment)).map
        (Token.moved (.lowered (s₁.toList.count '\n' + 1))) := List.filter_map
  have hfeed : (Token.feedBehind s₁.toList).kind ≠ .comment := nofun
  rw [List.filter_append, List.filter_cons_of_pos (by simpa using hfeed), hcomments,
    List.append_assoc, List.cons_append, List.map_append, Position.through_lowered]
  rfl

/-! ### Files -/

/-- A tree that stands some lines further down: every place in it is so many lines lower, and in the
same column. -/
def Node.lowered (lines : Nat) (n : Node) : Node := n.moved (.lowered lines)

/-- **Two texts that spell files spell one file, put the one below the other.**  It has the
statements of the first, where they were, and then those of the second, further down by the lines of
the first. -/
theorem SourceFile.parse_append {s₁ s₂ path : String} {dialect : Option Dialect}
    {f₁ f₂ : SourceFile} (h₁ : SourceFile.parse s₁ path dialect = .ok f₁)
    (h₂ : SourceFile.parse s₂ path dialect = .ok f₂) :
    let lines := s₁.toList.count '\n' + 1
    SourceFile.parse (s₁ ++ "\n" ++ s₂) path dialect = .ok
      { f₂ with
        span := ⟨.origin, f₂.span.stop.lowered lines⟩
        statements := f₁.statements ++ f₂.statements.map (Node.lowered lines) } := by
  intro lines
  obtain ⟨ts, hts, hf₁⟩ := Grammar.parse_eq_ok_iff.mp h₁
  obtain ⟨us, hus, hf₂⟩ := Grammar.parse_eq_ok_iff.mp h₂
  obtain ⟨r₁, hr₁, rfl⟩ := Grammar.ofTokens_eq_ok_iff.mp hf₁
  obtain ⟨r₂, hr₂, rfl⟩ := Grammar.ofTokens_eq_ok_iff.mp hf₂
  have hreadable₁ := Grammar.readable_of_tokensOf (Grammar.tokensOf_of_tokens hts)
  have hreadable₂ := Grammar.readable_of_tokensOf (Grammar.tokensOf_of_tokens hus)
  have hbalanced := (Grammar.statements_sound ts hreadable₁.spelled hreadable₁.marked hr₁).balanced
  -- the second text, further down and behind a line feed
  have hsecond := Grammar.statements_moved (.lowered lines) hreadable₂.spelled
    hreadable₂.marked hr₂
  have hfeed : (Token.feedBehind s₁.toList).kind = .newline := rfl
  have hmore : Grammar.statements (.feedBehind s₁.toList :: us.map (Token.moved (.lowered lines))) =
      .ok (Node.movedAll (.lowered lines) r₂.1, r₂.2.map (Token.moved (.lowered lines))) :=
    Grammar.statements_cons_eq_ok_iff.mpr (by rwa [if_pos (.inl hfeed)])
  have hends : Grammar.Ends
      (.feedBehind s₁.toList :: us.map (Token.moved (.lowered lines))) := by
    rintro _ ⟨⟩
    rfl
  -- the first text, without the mark of its end
  obtain ⟨body, stop, rfl, hstop, hbody⟩ := hreadable₁.marked
  have hclosed : depthAfterAll 0 (body.map Token.symbol) = 0 := by
    have hall := hbalanced.depthAfterAll_eq 0
    rwa [List.map_append, depthAfterAll_append, List.map_singleton, depthAfterAll_cons,
      Token.kind_symbol, hstop] at hall
  have hboth := Grammar.statements_append id hreadable₁.spelled hstop hbody hends hr₁ hmore
  rw [Token.moved_id, List.map_id, Node.movedAll_id] at hboth
  refine Grammar.parse_eq_ok_iff.mpr ⟨_, tokens_append hts hclosed hus, ?_⟩
  refine Grammar.ofTokens_eq_ok_iff.mpr ⟨_, hboth, ?_⟩
  obtain ⟨last, hlast⟩ :=
    Grammar.exists_snd_eq_some hreadable₂.spelled hreadable₂.marked hr₂
  rw [hlast, Node.movedAll_eq_map]
  rfl

set_option maxRecDepth 4000 in
/-- The first text ends with a comment and has two lines, so that the second starts on the third. -/
theorem SourceFile.parse_append_call :
    ∃ f₁ f₂, SourceFile.parse "x = [1,\n2] # r" "BUILD" none = .ok f₁ ∧
      SourceFile.parse "f(y)" "BUILD" none = .ok f₂ ∧
      SourceFile.parse ("x = [1,\n2] # r" ++ "\n" ++ "f(y)") "BUILD" none = .ok
        { span := ⟨⟨1, 1⟩, ⟨3, 5⟩⟩
          path := "BUILD"
          dialect := .build
          statements := f₁.statements ++
            [.call ⟨⟨3, 1⟩, ⟨3, 5⟩⟩ (.ident ⟨⟨3, 1⟩, ⟨3, 2⟩⟩ "f")
              [.ident ⟨⟨3, 3⟩, ⟨3, 4⟩⟩ "y"]] } := by
  let items : Node := .list ⟨⟨1, 5⟩, ⟨2, 3⟩⟩
    [.number ⟨⟨1, 6⟩, ⟨1, 7⟩⟩ "1", .number ⟨⟨2, 1⟩, ⟨2, 2⟩⟩ "2"]
  let assignment : Node :=
    .assign ⟨⟨1, 1⟩, ⟨2, 3⟩⟩ (.ident ⟨⟨1, 1⟩, ⟨1, 2⟩⟩ "x") "=" items
  let call : Node := .call ⟨⟨1, 1⟩, ⟨1, 5⟩⟩ (.ident ⟨⟨1, 1⟩, ⟨1, 2⟩⟩ "f")
    [.ident ⟨⟨1, 3⟩, ⟨1, 4⟩⟩ "y"]
  have hfirst : SourceFile.parse "x = [1,\n2] # r" "BUILD" none =
      .ok ⟨⟨⟨1, 1⟩, ⟨2, 7⟩⟩, "BUILD", .build, [assignment]⟩ := by cbv
  have hsecond : SourceFile.parse "f(y)" "BUILD" none =
      .ok ⟨⟨⟨1, 1⟩, ⟨1, 5⟩⟩, "BUILD", .build, [call]⟩ := by cbv
  exact ⟨_, _, hfirst, hsecond, parse_append hfirst hsecond⟩

end StarlarkLint
