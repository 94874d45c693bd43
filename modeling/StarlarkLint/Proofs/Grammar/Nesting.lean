import StarlarkLint.Proofs.Grammar.Recognition
import StarlarkLint.Proofs.Node.Nesting
import StarlarkLint.Proofs.Token.Tiling

/-!
# The spans of what is read

The tokens of a text stand in a row up to the mark of its end.  Each node of the grammar reaches
from one of its tokens to another one, with what is below it in between, so that the nodes that are
derived from tokens in a row stand in a row themselves, and so do the nodes below them.

## Main definitions

* `Grammar.Category.Fits` — what is derived stands between two places, and is nested.
* `Grammar.placesOf` — the spans of tokens, but for the mark of the end.
* `SourceFile.NestedIn` — the statements of a file stand in a row up to its end, and are nested.

## Main results

* `Grammar.Placed.fits` — what is derived from tokens in a row fits in between.
* `Grammar.FilePlaced.fits` — the statements of a file stand in a row.
* `SourceFile.nestedIn_of_parse` — a file that was read is nested in its text.
-/

namespace StarlarkLint

open StarlarkLint.Span (Row)

namespace Grammar

/-- What is derived stands between two places, and the spans inside lie inside one another.  The
members of a sequence stand in a row with the closing bracket behind them. -/
def Category.Fits (p q : Position) : Category → Node → Prop
  | .members _, .list closing ns => Row p (ns.map Node.span ++ [closing]) q ∧ ∀ n ∈ ns, n.Nested
  | _, n => Row p [n.span] q ∧ n.Nested

variable {p q : Position}

theorem Category.fits_member (kind : Sequence) (n : Node) :
    kind.member.Fits p q n ↔ Row p [n.span] q ∧ n.Nested := by
  cases kind <;> exact Iff.rfl

/-! ### What is derived -/

section Shapes

variable {a b : Position} {n x y : Node} {s e : Span} {between : List Span}

/-- A node that reaches from a token in front of its only slot to the end of the slot. -/
theorem fits_prefix (hs : Row p [s] a) (hx : Row a [x.span] q ∧ x.Nested)
    (hspan : n.span = ⟨s.start, x.span.stop⟩) (hslots : n.slots = [x]) :
    Row p [n.span] q ∧ n.Nested := by
  refine Node.nested_of_row (hs.append hx.1) rfl rfl hspan ?_ ?_
  · rw [hslots]
    exact List.sublist_cons_self s _
  · rw [hslots]
    exact List.forall_mem_singleton.mpr hx.2

/-- A node that reaches from one slot to another, with tokens in between. -/
theorem fits_pair (hx : Row p [x.span] a ∧ x.Nested) (hbetween : Row a between b)
    (hy : Row b [y.span] q ∧ y.Nested) (hspan : n.span = ⟨x.span.start, y.span.stop⟩)
    (hslots : n.slots = [x, y]) : Row p [n.span] q ∧ n.Nested := by
  refine Node.nested_of_row (hx.1.append (hbetween.append hy.1)) rfl (Row.mem_getLast? _ _ _) hspan
    ?_ ?_
  · rw [hslots]
    exact (List.sublist_append_right _ _).cons_cons _
  · rw [hslots]
    exact List.forall_mem_cons.mpr ⟨hx.2, List.forall_mem_singleton.mpr hy.2⟩

/-- A node that reaches from one bracket to another, with its slots in between. -/
theorem fits_enclosed (hs : Row p [s] a) (hrow : Row a (n.slots.map Node.span ++ [e]) q)
    (hspan : n.span = ⟨s.start, e.stop⟩) (h : ∀ m ∈ n.slots, m.Nested) :
    Row p [n.span] q ∧ n.Nested := by
  refine Node.nested_of_row (hs.append hrow) rfl (Row.mem_getLast? _ _ _) hspan ?_ h
  exact (List.sublist_append_left _ _).cons _

end Shapes

/-- **What is derived from tokens in a row fits in between.** -/
theorem Placed.fits {c : Category} {ts : List Token} {n : Node} (h : Placed c ts n)
    (hrow : Row p (ts.map Token.span) q) : c.Fits p q n := by
  induction h generalizing p q with
  | tighter _ ih => exact ih hrow
  | positional _ ih => exact ih hrow
  | operation _ _ _ _ ihx ihy =>
    rw [List.map_append, List.map_append] at hrow
    obtain ⟨a, hxs, hrest⟩ := hrow.split
    obtain ⟨b, hos, hys⟩ := hrest.split
    exact fits_pair (ihx hxs) hos (ihy hys) rfl rfl
  | negation _ _ ih =>
    obtain ⟨ht, hrest⟩ := hrow.uncons
    exact fits_prefix ht (ih hrest) rfl rfl
  | sign _ _ ih =>
    obtain ⟨ht, hrest⟩ := hrow.uncons
    exact fits_prefix ht (ih hrest) rfl rfl
  | starred _ _ ih =>
    obtain ⟨ht, hrest⟩ := hrow.uncons
    exact fits_prefix ht (ih hrest) rfl rfl
  | member _ _ _ ih =>
    rw [List.map_append] at hrow
    obtain ⟨a, hts, hrest⟩ := hrow.split
    obtain ⟨hn, hnested⟩ := ih hts
    refine Node.nested_of_row (hn.append hrest) rfl rfl rfl (List.sublist_append_left _ _) ?_
    exact List.forall_mem_singleton.mpr hnested
  | call _ _ _ ih ihargs =>
    rw [List.map_append] at hrow
    obtain ⟨a, hts, hrest⟩ := hrow.split
    obtain ⟨hopening, hus⟩ := hrest.uncons
    obtain ⟨hn, hnested⟩ := ih hts
    obtain ⟨hargs, hall⟩ := ihargs hus
    refine Node.nested_of_row (hn.append (hopening.append hargs)) rfl
      (Row.mem_getLast? _ _ (_ :: _)) rfl ?_ ?_
    · exact ((List.sublist_append_left _ _).cons _).cons_cons _
    · exact List.forall_mem_cons.mpr ⟨hnested, hall⟩
  | name _ _ => exact ⟨hrow, Node.nested_of_slots_eq_nil rfl hrow⟩
  | number _ => exact ⟨hrow, Node.nested_of_slots_eq_nil rfl hrow⟩
  | @string t ts _ _ =>
    refine Node.nested_of_row (e := (ts.getLastD t).span) hrow rfl ?_ rfl (List.nil_sublist _) nofun
    rw [List.getLast?_map, List.getLast?_cons, List.getLastD_eq_getLast?]
    rfl
  | list _ _ ih =>
    obtain ⟨hopening, hrest⟩ := hrow.uncons
    obtain ⟨hitems, hall⟩ := ih hrest
    exact fits_enclosed hopening hitems rfl hall
  | dict _ _ ih =>
    obtain ⟨hopening, hrest⟩ := hrow.uncons
    obtain ⟨hentries, hall⟩ := ih hrest
    exact fits_enclosed hopening hentries rfl hall
  | @parenthesised opening closing ts n _ h _ ih =>
    rw [List.map_cons, List.map_append] at hrow
    obtain ⟨hopening, hrest⟩ := hrow.uncons
    obtain ⟨a, hts, hclosing⟩ := hrest.split
    obtain ⟨hn, hnested⟩ := ih hts
    -- the span of the node is widened, and what is below it stays where it is
    obtain ⟨⟨-, hbelow⟩, hall⟩ := (Node.nested_iff h.ne_hole).mp hnested
    obtain ⟨hstart, -, hstop⟩ := hn.bounds n.span List.mem_cons_self
    have hslots := hbelow.widen hstart hstop
    rw [← Node.slots_withSpan ⟨opening.span.start, closing.span.stop⟩ n] at hslots hall
    exact fits_enclosed hopening (hslots.append hclosing) (span_withSpan h.ne_hole) hall
  | @keyword name sign ts n _ _ _ ih =>
    obtain ⟨hname, hrest⟩ := hrow.uncons
    obtain ⟨hsign, hts⟩ := hrest.uncons
    let ident : Node := .ident name.span name.value
    have hident : Row p [ident.span] name.span.stop ∧ ident.Nested :=
      ⟨hname, Node.nested_of_slots_eq_nil rfl hname⟩
    exact fits_pair hident hsign (ih hts) rfl rfl
  | entry _ _ _ ihkey ihvalue =>
    rw [List.map_append] at hrow
    obtain ⟨a, hks, hrest⟩ := hrow.split
    obtain ⟨hcolon, hvs⟩ := hrest.uncons
    exact fits_pair (ihkey hks) hcolon (ihvalue hvs) rfl rfl
  | close _ => exact ⟨hrow, List.forall_mem_nil _⟩
  | last _ _ ih =>
    rw [List.map_append] at hrow
    obtain ⟨a, hts, hclosing⟩ := hrow.split
    obtain ⟨hn, hnested⟩ := (Category.fits_member _ _).mp (ih hts)
    exact ⟨hn.append hclosing, List.forall_mem_singleton.mpr hnested⟩
  | more _ _ _ ih ihmore =>
    rw [List.map_append] at hrow
    obtain ⟨a, hts, hrest⟩ := hrow.split
    obtain ⟨hcomma, hus⟩ := hrest.uncons
    obtain ⟨hn, hnested⟩ := (Category.fits_member _ _).mp (ih hts)
    obtain ⟨hmore, hall⟩ := ihmore hus
    refine ⟨hn.append (hmore.widen hcomma.le (Position.le_refl _)), ?_⟩
    exact List.forall_mem_cons.mpr ⟨hnested, hall⟩

/-! ### What is read -/

/-- The spans of tokens, but for the mark of the end, which takes up no characters. -/
def placesOf (ts : List Token) : List Span := (ts.filter (·.kind ≠ .endOfFile)).map Token.span

theorem placesOf_cons {t : Token} (ht : t.kind ≠ .endOfFile) (ts : List Token) :
    placesOf (t :: ts) = t.span :: placesOf ts := by
  rw [placesOf, List.filter_cons_of_pos (by simpa using ht), List.map_cons]
  rfl

theorem placesOf_append {used : List Token} (h : ∀ t ∈ used, t.kind ≠ .endOfFile)
    (rest : List Token) : placesOf (used ++ rest) = used.map Token.span ++ placesOf rest := by
  rw [placesOf, List.filter_append, List.map_append, List.filter_eq_self.mpr (by simpa using h)]
  rfl

/-- The arguments of a load stand in a row with the closing parenthesis behind them. -/
theorem LoadPlaced.fits {ts : List Token} {closing : Span} {ns : List Node}
    (h : LoadPlaced ts closing ns) (hrow : Row p (ts.map Token.span) q) :
    (Category.members .arguments).Fits p q (.list closing ns) := by
  induction h generalizing p with
  | close _ => exact ⟨hrow, List.forall_mem_nil _⟩
  | closeBehindComma _ _ =>
    obtain ⟨hcomma, hclosing⟩ := hrow.uncons
    exact ⟨hclosing.widen hcomma.le (Position.le_refl q), List.forall_mem_nil _⟩
  | more _ h _ ih =>
    obtain ⟨hcomma, hrest⟩ := hrow.uncons
    rw [List.map_append] at hrest
    obtain ⟨a, hts, hus⟩ := hrest.split
    obtain ⟨hn, hnested⟩ := h.fits hts
    obtain ⟨hmore, hall⟩ := ih hus
    refine ⟨?_, List.forall_mem_cons.mpr ⟨hnested, hall⟩⟩
    exact (hn.widen hcomma.le (Position.le_refl a)).append hmore

theorem StatementPlaced.fits {ts : List Token} {n : Node} (h : StatementPlaced ts n)
    (hrow : Row p (ts.map Token.span) q) : Row p [n.span] q ∧ n.Nested := by
  cases h with
  | load _ _ _ hargs =>
    obtain ⟨hname, hrow⟩ := hrow.uncons
    obtain ⟨hopening, hrow⟩ := hrow.uncons
    obtain ⟨hmodule, hrow⟩ := hrow.uncons
    obtain ⟨hargs, hall⟩ := hargs.fits hrow
    refine Node.nested_of_row (hname.append (hopening.append (hmodule.append hargs))) rfl
      (Row.mem_getLast? _ _ (_ :: _ :: _)) rfl ?_ ?_
    · exact (((List.sublist_append_left _ _).cons_cons _).cons _).cons _
    · exact List.forall_mem_cons.mpr ⟨Node.nested_of_slots_eq_nil rfl hmodule, hall⟩
  | value h _ => exact h.fits hrow
  | assign hx _ hy _ =>
    rw [List.map_append] at hrow
    obtain ⟨a, hxs, hrest⟩ := hrow.split
    obtain ⟨hsign, hys⟩ := hrest.uncons
    exact fits_pair (hx.fits hxs) hsign (hy.fits hys) rfl rfl

/-- **The statements of a file stand in a row.** -/
theorem FilePlaced.fits {ts : List Token} {ns : List Node} (h : FilePlaced ts ns)
    (hrow : Row p (placesOf ts) q) : Row p (ns.map Node.span) q ∧ ∀ n ∈ ns, n.Nested := by
  induction h generalizing p with
  | stop _ => exact ⟨.nil hrow.le, List.forall_mem_nil _⟩
  | @separator t ts ns hsep _ ih =>
    have hkind : t.kind ≠ .endOfFile := by
      rcases hsep with hsep | hsep <;> simp [← Token.kind_symbol, hsep]
    rw [placesOf_cons hkind] at hrow
    obtain ⟨ht, hrest⟩ := hrow.uncons
    obtain ⟨hstatements, hall⟩ := ih hrest
    exact ⟨hstatements.widen ht.le (Position.le_refl q), hall⟩
  | statement h _ _ ih =>
    rw [placesOf_append h.kind_ne_endOfFile] at hrow
    obtain ⟨a, hts, hus⟩ := hrow.split
    obtain ⟨hn, hnested⟩ := h.fits hts
    obtain ⟨hstatements, hall⟩ := ih hus
    exact ⟨hn.append hstatements, List.forall_mem_cons.mpr ⟨hnested, hall⟩⟩

end Grammar

/-! ### Texts and files -/

/-- Tokens that are passed on the way from one place to another stand in a row. -/
theorem Passes.row {depth depth' : Nat} {p p' : Position} {cs rest : List Char} {ts : List Token}
    (h : Passes depth p cs ts depth' p' rest) : Row p (ts.map Token.span) p' := by
  induction h with
  | done => exact .nil (Position.le_refl _)
  | @token _ _ p _ gap text _ _ t _ _ hheads _ hspan _ ih =>
    rw [List.map_cons, hspan]
    refine .cons (Position.le_through p gap) ?_ ih
    rw [Position.through_append]
    exact Position.lt_through _ (List.ne_nil_of_length_pos hheads.length_pos)

/-- The tokens of a text stand in a row up to the mark of its end. -/
theorem exists_row_of_tokens {source : String} {ts : List Token} (h : tokens source = .ok ts) :
    ∃ q, ts.getLast? = some (.endAt q) ∧ Row .origin (Grammar.placesOf ts) q := by
  obtain ⟨body, depth, p, gap, hbody, -, rfl⟩ := exists_passes_of_tokens h
  refine ⟨p.through gap, List.getLast?_concat, ?_⟩
  refine (hbody.row.widen (Position.le_refl _) (Position.le_through p gap)).sublist ?_
  -- the mark of the end is left out, and so are comments
  have hplaces : Grammar.placesOf (body.filter (·.kind ≠ .comment) ++ [.endAt (p.through gap)]) =
      ((body.filter (·.kind ≠ .comment)).filter (·.kind ≠ .endOfFile)).map Token.span := by
    rw [Grammar.placesOf, List.filter_append, List.map_append]
    exact List.append_nil _
  rw [hplaces]
  exact (List.filter_sublist.trans List.filter_sublist).map Token.span

/-- The statements of a file stand in a row from the origin to the end of the file, and the spans in
them lie inside one another. -/
structure SourceFile.NestedIn (stop : Position) (f : SourceFile) : Prop where
  /-- The file reaches from the origin to its end. -/
  span_eq : f.span = ⟨.origin, stop⟩
  /-- Its statements stand in a row. -/
  row : Row .origin (f.statements.map Node.span) stop
  /-- Each of them is nested. -/
  nested : ∀ n ∈ f.statements, n.Nested

/-- **A file that was read is nested in its text**, whose end the last token marks. -/
theorem SourceFile.nestedIn_of_parse {source path : String} {dialect : Option Dialect}
    {f : SourceFile} (h : SourceFile.parse source path dialect = .ok f) :
    ∃ ts q, tokens source = .ok ts ∧ ts.getLast? = some (.endAt q) ∧ f.NestedIn q := by
  obtain ⟨ts, hts, hf⟩ := Grammar.parse_eq_ok_iff.mp h
  obtain ⟨r, hr, rfl⟩ := Grammar.ofTokens_eq_ok_iff.mp hf
  have hreadable := Grammar.readable_of_tokensOf (Grammar.tokensOf_of_tokens hts)
  obtain ⟨q, hlast, hrow⟩ := exists_row_of_tokens hts
  obtain ⟨hplaced, hstop⟩ := Grammar.statements_placed ts hreadable.spelled hreadable.marked hr
  obtain ⟨hstatements, hnested⟩ := hplaced.fits hrow
  refine ⟨ts, q, hts, hlast, ?_, hstatements, hnested⟩
  rw [hstop, hlast]
  rfl

end StarlarkLint
