import StarlarkLint.Proofs.Token.Lexeme
import StarlarkLint.Token.Scan

/-!
# Scanning by symbols

The symbols that a text is read as do not depend on the place where it stands, but on the number of
open brackets, which decides about line feeds.  `Lexes` says which symbols the scanner passes on its
way from one text to another, so that what was written piece by piece can be read piece by piece.

## Main definitions

* `Terminated` — the end of the text is marked by the last token and no other.
* `Gap` — what may lie between two tokens.
* `Lexes` — the symbols between two texts.

## Main results

* `Scan.genuine_of_mem`, `Scan.terminated` — what the tokens of a text look like.
* `Lexes.map_symbol`, `Lexes.exists_tokens` — the symbols and the tokens of a text that `Lexes` goes
  through.
-/

namespace StarlarkLint

/-! ### The tokens of a text -/

/-- The end of the text is marked by the last token and no other. -/
def Terminated (ts : List Token) : Prop :=
  ∃ body stop, ts = body ++ [stop] ∧ stop.kind = .endOfFile ∧ ∀ t ∈ body, t.kind ≠ .endOfFile

theorem Terminated.of_append {used rest : List Token} (h : Terminated (used ++ rest))
    (hused : ∀ t ∈ used, t.kind ≠ .endOfFile) : Terminated rest := by
  obtain ⟨body, stop, heq, hstop, hbody⟩ := h
  induction used generalizing body with
  | nil => exact ⟨body, stop, heq, hstop, hbody⟩
  | cons t used ih =>
    cases body with
    | nil =>
      -- the mark of the end cannot be the first token that is gone
      obtain ⟨rfl, -⟩ := List.cons.inj heq
      exact absurd hstop (hused t List.mem_cons_self)
    | cons u body =>
      rw [List.forall_mem_cons] at hused hbody
      exact ih hused.2 body (List.cons.inj heq).2 hbody.2

theorem Terminated.of_cons {t : Token} {rest : List Token} (h : Terminated (t :: rest))
    (ht : t.kind ≠ .endOfFile) : Terminated rest := by
  rw [← List.singleton_append] at h
  exact h.of_append (by simpa using ht)

theorem Terminated.cons {t : Token} {rest : List Token} (h : Terminated rest)
    (ht : t.kind ≠ .endOfFile) : Terminated (t :: rest) := by
  obtain ⟨body, stop, rfl, hstop, hbody⟩ := h
  exact ⟨t :: body, stop, rfl, hstop, List.forall_mem_cons.mpr ⟨ht, hbody⟩⟩

theorem Terminated.ne_nil {ts : List Token} (h : Terminated ts) : ts ≠ [] := by
  obtain ⟨body, stop, rfl, -⟩ := h
  simp

theorem Terminated.eq_nil_of_endOfFile {t : Token} {rest : List Token}
    (h : Terminated (t :: rest)) (hend : t.kind = .endOfFile) : rest = [] := by
  obtain ⟨body, stop, heq, -, hbody⟩ := h
  cases body with
  | nil => exact (List.cons.inj heq).2
  | cons u body =>
    obtain ⟨rfl, -⟩ := List.cons.inj heq
    exact absurd hend (hbody t List.mem_cons_self)

/-- Leaving out tokens that do not mark the end leaves the mark where it is. -/
theorem Terminated.filter {ts : List Token} {p : Token → Bool} (h : Terminated ts)
    (hp : ∀ t ∈ ts, t.kind = .endOfFile → p t = true) : Terminated (ts.filter p) := by
  obtain ⟨body, stop, rfl, hstop, hbody⟩ := h
  refine ⟨body.filter p, stop, ?_, hstop, fun t ht => hbody t (List.mem_of_mem_filter ht)⟩
  simp [hp stop (by simp) hstop]

/-- No lexeme marks the end of a text. -/
theorem Symbol.Genuine.kind_ne_endOfFile {s : Symbol} (h : s.Genuine) : s.kind ≠ .endOfFile := by
  cases h with
  | word hstart htail =>
    simp only [Lexeme.ofWord, Lexeme.kind_symbol]
    split <;> decide
  | sign hsign =>
    have hall : ∀ p ∈ Lexeme.signTexts, p.1 ≠ .endOfFile := by decide
    exact hall _ hsign
  | _ => simp

namespace Scan

variable {cursor : Cursor} {c : Char} {cs : List Char} {l : Lexeme}

/-- At the end of the text there is the mark alone. -/
theorem go_nil (depth : Nat) (h : cursor.skipBlanks.rest = []) :
    go cursor depth =
      { tokens := [⟨.endOfFile, "", ⟨cursor.skipBlanks.position, cursor.skipBlanks.position⟩⟩]
        stop := cursor.skipBlanks
        depth } := by
  rw [go]
  split
  · rfl
  · next heq =>
    rw [h] at heq
    cases heq

/-- A lexeme is passed, and becomes a token if it counts. -/
theorem go_cons (depth : Nat) (h : cursor.skipBlanks.rest = c :: cs)
    (hread : Lexeme.read c cs = .ok l) :
    let next := cursor.skipBlanks.advance l.length
    let scan := go next (l.kind.depthAfter depth)
    go cursor depth = if counts depth l.kind then
        scan.cons ⟨l.kind, l.value, ⟨cursor.skipBlanks.position, next.position⟩⟩
      else scan := by
  dsimp only
  rw [go]
  split
  · next heq =>
    rw [h] at heq
    cases heq
  · next heq =>
    rw [h] at heq
    cases heq
    rw [hread]

/-- Where the next place that is not blank is the same, so is all that follows. -/
theorem go_congr {cursor' : Cursor} {depth : Nat} (h : cursor.skipBlanks = cursor'.skipBlanks) :
    go cursor depth = go cursor' depth := by
  rw [go, go, h]

/-- Every token is genuine, or marks the end. -/
theorem genuine_of_mem (cursor : Cursor) (depth : Nat) :
    ∀ t ∈ (go cursor depth).tokens, t.symbol.Genuine ∨ t.kind = .endOfFile := by
  fun_induction go cursor depth with
  | case1 => simp
  | case2 => simp
  | case3 cursor depth here c cs hrest l hread next scan hcounts ih =>
    rw [cons, List.forall_mem_cons]
    exact ⟨.inl (Lexeme.genuine_symbol hread), ih⟩
  | case4 cursor depth here c cs hrest l hread next scan hcounts ih => exact ih

/-- A text without a problem has its end marked. -/
theorem terminated (cursor : Cursor) (depth : Nat) (h : (go cursor depth).error = none) :
    Terminated (go cursor depth).tokens := by
  fun_induction go cursor depth with
  | case1 => exact ⟨[], _, rfl, rfl, by simp⟩
  | case2 => cases h
  | case3 cursor depth here c cs hrest l hread next scan hcounts ih =>
    exact (ih h).cons (Lexeme.genuine_symbol hread).kind_ne_endOfFile
  | case4 cursor depth here c cs hrest l hread next scan hcounts ih => exact ih h

end Scan

/-! ### Texts piece by piece -/

/-- What may lie between two tokens with the given number of brackets open. -/
inductive Gap (depth : Nat) : List Char → Prop
  /-- Nothing. -/
  | nil : Gap depth []
  /-- A blank. -/
  | blank {c : Char} {cs : List Char} (hc : c = ' ' ∨ c = '\t' ∨ c = '\r') (h : Gap depth cs) :
      Gap depth (c :: cs)
  /-- A line that is continued. -/
  | continuation {cs : List Char} (h : Gap depth cs) : Gap depth ('\\' :: '\n' :: cs)
  /-- The end of a line inside brackets. -/
  | feed {cs : List Char} (hdepth : 0 < depth) (h : Gap depth cs) : Gap depth ('\n' :: cs)

theorem Gap.append {depth : Nat} {cs ds : List Char} (h : Gap depth cs) (h' : Gap depth ds) :
    Gap depth (cs ++ ds) := by
  induction h with
  | nil => exact h'
  | blank hc _ ih => exact .blank hc ih
  | continuation _ ih => exact .continuation ih
  | feed hdepth _ ih => exact .feed hdepth ih

/-- From the first text the scanner passes the symbols and arrives at the second.  The numbers are
those of the brackets that are open. -/
inductive Lexes : Nat → List Char → List Symbol → Nat → List Char → Prop
  /-- Nothing is passed. -/
  | done {depth : Nat} {cs : List Char} : Lexes depth cs [] depth cs
  /-- A gap is passed over. -/
  | gap {depth depth' : Nat} {gap cs rest : List Char} {ss : List Symbol} (hgap : Gap depth gap)
      (h : Lexes depth cs ss depth' rest) : Lexes depth (gap ++ cs) ss depth' rest
  /-- A lexeme is passed. -/
  | symbol {depth depth' : Nat} {text cs rest : List Char} {s : Symbol} {ss : List Symbol}
      (hheads : Lexeme.Heads text s cs) (hcounts : Scan.counts depth s.kind = true)
      (h : Lexes (s.kind.depthAfter depth) cs ss depth' rest) :
      Lexes depth (text ++ cs) (s :: ss) depth' rest

/-- No lexeme starts with a blank. -/
theorem blanks_eq_zero_of_read {c : Char} {cs : List Char} {l : Lexeme}
    (h : Lexeme.read c cs = .ok l) : Cursor.blanks (c :: cs) = 0 := by
  have herror : ∀ c ∈ [' ', '\t', '\r', '\\'], Lexeme.read c cs ≠ .ok l := by
    intro c hc
    simp only [List.mem_cons, List.not_mem_nil, or_false] at hc
    rcases hc with rfl | rfl | rfl | rfl <;> cases cs <;> exact fun h => nomatch h
  unfold Cursor.blanks
  split
  case h_5 => rfl
  all_goals
    next heq =>
      cases heq
      exact absurd h (herror _ (by simp))

namespace Scan

variable {depth : Nat} {gap cs : List Char}

/-- Where a blank stands, reading goes on behind it. -/
theorem go_blanks {cursor : Cursor} (n : Nat)
    (h : Cursor.blanks cursor.rest = n + Cursor.blanks (cursor.rest.drop n)) :
    go cursor depth = go (cursor.advance n) depth := by
  apply go_congr
  rw [Cursor.skipBlanks, Cursor.skipBlanks, Cursor.rest_advance, Cursor.advance_advance, h]

/-- **What is read behind a gap is read in front of it.** -/
theorem go_gap (hgap : Gap depth gap) (cursor : Cursor) (hcursor : cursor.rest = gap ++ cs) :
    go cursor depth = go (cursor.advance gap.length) depth := by
  induction hgap generalizing cursor with
  | nil => rfl
  | @blank c gap hc _ ih =>
    have hblanks : Cursor.blanks (c :: (gap ++ cs)) = 1 + Cursor.blanks (gap ++ cs) := by
      rcases hc with rfl | rfl | rfl <;> exact Nat.add_comm _ _
    have hskip : Cursor.blanks cursor.rest = 1 + Cursor.blanks (cursor.rest.drop 1) := by
      rw [hcursor]
      exact hblanks
    rw [go_blanks 1 hskip, ih _ (by simp [hcursor]), Cursor.advance_advance, List.length_cons,
      Nat.add_comm]
  | @continuation gap _ ih =>
    have hskip : Cursor.blanks cursor.rest = 2 + Cursor.blanks (cursor.rest.drop 2) := by
      rw [hcursor]
      exact Nat.add_comm _ _
    rw [go_blanks 2 hskip, ih _ (by simp [hcursor]), Cursor.advance_advance, List.length_cons,
      List.length_cons, Nat.add_comm 2]
  | @feed gap hdepth _ ih =>
    have hblanks : cursor.skipBlanks = cursor := by
      rw [Cursor.skipBlanks, hcursor]
      rfl
    have hrest : cursor.skipBlanks.rest = '\n' :: (gap ++ cs) := by rw [hblanks, hcursor]; rfl
    have hout : counts depth .newline = false := by
      simp [counts, Nat.ne_of_gt hdepth]
    rw [go_cons depth hrest rfl, if_neg (by simp [hout]), hblanks]
    show go (cursor.advance 1) depth = _
    rw [ih _ (by simp [hcursor]), Cursor.advance_advance, List.length_cons, Nat.add_comm]

/-- A lexeme that counts becomes a token, and reading goes on right behind it. -/
theorem go_heads {cursor : Cursor} {text : List Char} {s : Symbol} (h : Lexeme.Heads text s cs)
    (hcounts : counts depth s.kind = true) (hcursor : cursor.rest = text ++ cs) :
    let next := cursor.advance text.length
    go cursor depth = (go next (s.kind.depthAfter depth)).cons
      ⟨s.kind, s.value, ⟨cursor.position, next.position⟩⟩ := by
  obtain ⟨c, tail, l, rfl, hread, rfl, hlength⟩ := h
  have hskip : cursor.skipBlanks = cursor := by
    rw [Cursor.skipBlanks, hcursor, List.cons_append, blanks_eq_zero_of_read hread,
      Cursor.advance_zero]
  have hrest : cursor.skipBlanks.rest = c :: (tail ++ cs) := by rw [hskip, hcursor]; rfl
  rw [Lexeme.kind_symbol] at hcounts
  rw [go_cons depth hrest hread, if_pos hcounts, hskip, hlength]
  rfl

end Scan

namespace Lexes

variable {depth depth' depth'' : Nat} {cs mid rest : List Char} {ss ss' : List Symbol}

/-- A blank is passed over. -/
theorem blank {c : Char} (hc : c = ' ' ∨ c = '\t') (h : Lexes depth cs ss depth' rest) :
    Lexes depth (c :: cs) ss depth' rest := by
  have hgap : Gap depth [c] := .blank (hc.imp id .inl) .nil
  exact .gap hgap h

/-- A line feed is passed over inside brackets. -/
theorem feed (hdepth : depth ≠ 0) (h : Lexes depth cs ss depth' rest) :
    Lexes depth ('\n' :: cs) ss depth' rest := by
  have hgap : Gap depth ['\n'] := .feed (Nat.pos_of_ne_zero hdepth) .nil
  exact .gap hgap h

theorem trans (h : Lexes depth cs ss depth' mid) (h' : Lexes depth' mid ss' depth'' rest) :
    Lexes depth cs (ss ++ ss') depth'' rest := by
  induction h with
  | done => exact h'
  | gap hgap _ ih => exact .gap hgap (ih h')
  | symbol hheads hcounts _ ih => exact .symbol hheads hcounts (ih h')

/-- **Scanning the first text gives the symbols and what scanning the second gives.** -/
theorem map_symbol (h : Lexes depth cs ss depth' rest) (cursor : Cursor)
    (hcursor : cursor.rest = cs) :
    ∃ cursor' : Cursor, cursor'.rest = rest ∧
      (Scan.go cursor depth).tokens.map Token.symbol =
        ss ++ (Scan.go cursor' depth').tokens.map Token.symbol ∧
      (Scan.go cursor depth).error = (Scan.go cursor' depth').error := by
  induction h generalizing cursor with
  | done => exact ⟨cursor, hcursor, rfl, rfl⟩
  | gap hgap _ ih =>
    rw [Scan.go_gap hgap cursor hcursor]
    exact ih _ (by simp [hcursor])
  | @symbol depth _ text cs _ s ss hheads hcounts _ ih =>
    rw [Scan.go_heads hheads hcounts hcursor]
    obtain ⟨cursor', hcursor', heq, herr⟩ := ih (cursor.advance text.length) (by simp [hcursor])
    exact ⟨cursor', hcursor', congrArg (s :: ·) heq, herr⟩

/-- A text that is gone through to its end has these symbols but for the comments, and the mark of
its end. -/
theorem exists_tokens {text : String} (h : Lexes 0 text.toList ss depth' []) :
    ∃ ts, tokens text = .ok ts ∧
      ts.map Token.symbol = ss.filter (·.kind ≠ .comment) ++ [⟨.endOfFile, ""⟩] := by
  obtain ⟨cursor, hcursor, heq, herror⟩ := h.map_symbol (.start text) rfl
  have hnil : cursor.skipBlanks.rest = [] := by simp [hcursor, Cursor.blanks]
  rw [Scan.go_nil depth' hnil] at heq herror
  refine ⟨(Scan.ofText text).withoutComments, ?_, ?_⟩
  · rw [tokens, Scan.ofText, herror]
  · have hfilter := congrArg (List.filter (·.kind ≠ .comment)) heq
    rw [List.filter_map, List.filter_append] at hfilter
    exact hfilter

/-- Where there are no comments, none are left out. -/
theorem tokens_eq_ok {text : String} (h : Lexes 0 text.toList ss depth' [])
    (hss : ∀ s ∈ ss, s.kind ≠ .comment) :
    ∃ ts, tokens text = .ok ts ∧ ts.map Token.symbol = ss ++ [⟨.endOfFile, ""⟩] := by
  obtain ⟨ts, hts, heq⟩ := h.exists_tokens
  rw [List.filter_eq_self.mpr (by simpa using hss)] at heq
  exact ⟨ts, hts, heq⟩

end Lexes

/-- A lexeme that is not a line feed is passed anywhere. -/
theorem lexes_heads {text rest : List Char} {s : Symbol} (h : Lexeme.Heads text s rest)
    (hs : s.kind ≠ .newline) (depth : Nat) :
    Lexes depth (text ++ rest) [s] (s.kind.depthAfter depth) rest :=
  .symbol h (by simp [Scan.counts, hs]) .done

/-- A single sign, but for a dot. -/
theorem lexes_char {c : Char} {kind : TokenKind} (h : TokenKind.ofChar? c = some kind)
    (hdot : c ≠ '.') (depth : Nat) (cs : List Char) :
    Lexes depth (c :: cs) [⟨kind, c.toString⟩] (kind.depthAfter depth) cs := by
  refine lexes_heads (Lexeme.heads_char h fun hc => absurd hc hdot) ?_ depth
  rintro rfl
  unfold TokenKind.ofChar? at h
  split at h <;> cases h

end StarlarkLint
