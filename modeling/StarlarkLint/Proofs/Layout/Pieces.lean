import Mathlib.Data.List.Forall2
import StarlarkLint.Layout.Render
import StarlarkLint.Proofs.Grammar.Derivation
import StarlarkLint.Proofs.Token.Literal
import StarlarkLint.Proofs.Token.Scan

/-!
# Reading layouts piece by piece

A layout is made of pieces: words, operators between blanks, and sequences in brackets, laid out on
one line or one member to a line.  Each piece is read as its symbols wherever it stands, as long as
what follows it does not go on with it.  Line feeds stand inside brackets only, where they are
passed over, and indentation is blank.

## Main definitions

* `Reads` — a text is read as symbols wherever it stands.
* `Grammar.Sequence.opening`, `Grammar.Sequence.closing` — the brackets of a sequence.

## Main results

* `lexes_operator` — an operator between blanks.
* `lexes_inline`, `lexes_stacked` — sequences in brackets, in either layout.
-/

namespace StarlarkLint

open Text Lexeme

/-- Wherever the text stands in front of a separate one, it is read as the symbols. -/
def Reads (text : List Char) (ss : List Symbol) : Prop :=
  ∀ depth rest, Separate rest → Lexes depth (text ++ rest) ss depth rest

/-! ### Words, numbers, strings and operators -/

/-- A mark that is neither a quote nor a dot goes on with nothing. -/
theorem separate_mark {c : Char} (h : c ∈ marks) (hother : c ∉ ['"', '\'', '.'])
    (cs : List Char) : Separate (c :: cs) := by
  simp only [List.mem_cons, List.not_mem_nil, or_false, not_or] at hother
  refine separate_cons h ?_ fun hdot => absurd hdot hother.2.2
  simp [isQuote, hother]

/-- The kinds of words, numbers and strings. -/
def wordKinds : List TokenKind := [.identifier, .keyword, .number, .string]

theorem reads_of_heads {text : List Char} {s : Symbol} (hs : s.kind ∈ wordKinds)
    (h : ∀ rest, Separate rest → Heads text s rest) : Reads text [s] := by
  intro depth rest hrest
  have hall : ∀ kind ∈ wordKinds, kind ≠ .newline ∧ ∀ depth, kind.depthAfter depth = depth := by
    simp [wordKinds, TokenKind.depthAfter]
  obtain ⟨hnewline, hdepth⟩ := hall _ hs
  have hlexes := lexes_heads (h rest hrest) hnewline depth
  rwa [hdepth] at hlexes

/-- A word or a number. -/
theorem reads_of_isLexeme {kind : TokenKind} {text : String} (h : IsLexeme kind text)
    (hkind : kind ∈ [TokenKind.identifier, .keyword, .number]) :
    Reads text.toList [⟨kind, text⟩] := by
  refine reads_of_heads ?_ fun rest hrest => h.heads hkind hrest
  simp only [wordKinds, List.mem_cons, List.not_mem_nil, or_false] at hkind ⊢
  rcases hkind with h | h | h <;> simp [h]

/-- A string. -/
theorem reads_written (value : String) : Reads (Literal.written value).toList [⟨.string, value⟩] :=
  reads_of_heads (by simp [wordKinds]) fun _ hrest => heads_written value fun _ hquote =>
    absurd (hrest.2 _ hquote) (by decide)

/-- An operator that is a word. -/
theorem reads_keyword (word : String) (h : word ∈ keywords) :
    Reads word.toList [⟨.keyword, word⟩] := by
  have hall : ∀ word ∈ keywords, IsLexeme .keyword word := by
    simp only [keywords, List.forall_mem_cons]
    refine ⟨?_, ?_, ?_, ?_, by simp⟩ <;> exact ⟨_, _, _, rfl, rfl, rfl, rfl⟩
  exact reads_of_isLexeme (hall word h) (by decide)

theorem lexes_blank {c : Char} (hc : c = ' ' ∨ c = '\t') (depth : Nat) (cs : List Char) :
    Lexes depth (c :: cs) [] depth cs := .blank hc .done

theorem lexes_blanks {blanks : List Char} (h : ∀ c ∈ blanks, c = ' ' ∨ c = '\t') (depth : Nat)
    (cs : List Char) : Lexes depth (blanks ++ cs) [] depth cs := by
  induction blanks with
  | nil => exact .done
  | cons c blanks ih =>
    rw [List.forall_mem_cons] at h
    exact .blank h.1 (ih h.2)

open Grammar in
/-- A binary operator that is a sign, in front of a blank. -/
theorem heads_of_mem_signs {s : Symbol} (h : s ∈ signs) (rest : List Char) :
    Heads s.value.toList s (' ' :: rest) := by
  have hall : ∀ s ∈ signs, Heads s.value.toList s (' ' :: rest) := by
    simp only [signs, List.forall_mem_cons]
    refine ⟨?_, ?_, ?_, ?_, ?_, ?_, ?_, ?_, ?_, ?_, ?_, ?_, ?_, by simp⟩ <;>
      exact ⟨_, _, _, rfl, rfl, rfl, rfl⟩
  exact hall s h

open Grammar in
/-- An operator is read as its symbols when a blank follows it. -/
theorem lexes_operator {op : String} (h : op ∈ Operator.levels.flatten) :
    ∃ os, Spells os op ∧ ∀ depth rest,
      Lexes depth (op.toList ++ ' ' :: rest) os depth (' ' :: rest) := by
  have hsep : ∀ rest, Separate (' ' :: rest) := separate_mark (by decide) (by decide)
  have hcases : ∀ op ∈ Operator.levels.flatten,
      op = "not in" ∨ op ∈ ["and", "or", "in"] ∨ ∃ s ∈ signs, s.value = op := by decide
  rcases hcases op h with rfl | hword | ⟨s, hs, rfl⟩
  · refine ⟨_, .notIn, fun depth rest => ?_⟩
    have hnot := reads_keyword "not" (by decide) depth (' ' :: ("in".toList ++ ' ' :: rest))
      (hsep _)
    have hin := reads_keyword "in" (by decide) depth (' ' :: rest) (hsep rest)
    exact hnot.trans ((lexes_blank (.inl rfl) depth _).trans hin)
  · have hkeyword : op ∈ keywords := by
      simp only [keywords, List.mem_cons, List.not_mem_nil, or_false] at hword ⊢
      rcases hword with h | h | h <;> simp [h]
    refine ⟨_, .word (s := ⟨.keyword, op⟩) rfl hword, fun depth rest => ?_⟩
    exact reads_keyword op hkeyword depth _ (hsep rest)
  · refine ⟨_, .sign hs, fun depth rest => ?_⟩
    have hall : ∀ s ∈ signs, s.kind ≠ .newline ∧ ∀ depth, s.kind.depthAfter depth = depth := by
      simp [signs, TokenKind.depthAfter]
    obtain ⟨hnewline, hdepth⟩ := hall s hs
    have hlexes := lexes_heads (heads_of_mem_signs hs rest) hnewline depth
    rwa [hdepth] at hlexes

/-- The sign of an assignment between two texts. -/
theorem reads_assignment {kind : TokenKind} {op x y : String} {xs ys : List Symbol}
    (hop : (kind, op) ∈ [(TokenKind.equals, "="), (.plusEquals, "+=")]) (hx : Reads x.toList xs)
    (hy : Reads y.toList ys) :
    Reads (x ++ " " ++ op ++ " " ++ y).toList (xs ++ ⟨kind, op⟩ :: ys) := by
  intro depth rest hrest
  have hsep := separate_mark (c := ' ') (by decide) (by decide)
  have hblank := lexes_blank (c := ' ') (.inl rfl) depth
  have hsign : ∀ cs, Lexes depth (op.toList ++ ' ' :: cs) [⟨kind, op⟩] depth (' ' :: cs) := by
    intro cs
    simp only [List.mem_cons, List.not_mem_nil, or_false, Prod.mk.injEq] at hop
    rcases hop with ⟨rfl, rfl⟩ | ⟨rfl, rfl⟩
    · have hheads : Heads "=".toList ⟨.equals, "="⟩ (' ' :: cs) := ⟨_, _, _, rfl, rfl, rfl, rfl⟩
      exact lexes_heads hheads (by decide) depth
    · have hheads : Heads "+=".toList ⟨.plusEquals, "+="⟩ (' ' :: cs) :=
        ⟨_, _, _, rfl, rfl, rfl, rfl⟩
      exact lexes_heads hheads (by decide) depth
  have hbehind := (hsign _).trans ((hblank _).trans (hy depth rest hrest))
  have hwhole := (hx depth _ (hsep _)).trans ((hblank _).trans hbehind)
  simpa using hwhole

/-! ### Sequences in brackets -/

namespace Grammar.Sequence

/-- The bracket that opens a sequence. -/
def opening : Sequence → Symbol
  | arguments => ⟨.lparen, "("⟩
  | items => ⟨.lbracket, "["⟩
  | entries => ⟨.lbrace, "\x7b"⟩

/-- The bracket that closes a sequence. -/
def closing : Sequence → Symbol
  | arguments => ⟨.rparen, ")"⟩
  | items => ⟨.rbracket, "]"⟩
  | entries => ⟨.rbrace, "\x7d"⟩

@[simp] theorem kind_closing (kind : Sequence) : kind.closing.kind = kind.closer := by
  cases kind <;> rfl

end Grammar.Sequence

open Grammar

variable {kind : Sequence} {texts : List String} {sss : List (List Symbol)}

theorem lexes_opening (kind : Sequence) (depth : Nat) (rest : List Char) :
    Lexes depth (kind.opening.value.toList ++ rest) [kind.opening] (depth + 1) rest := by
  cases kind with
  | arguments => exact lexes_char (c := '(') rfl (by decide) depth rest
  | items => exact lexes_char (c := '[') rfl (by decide) depth rest
  | entries => exact lexes_char (c := '\x7b') rfl (by decide) depth rest

theorem lexes_closing (kind : Sequence) (depth : Nat) (rest : List Char) :
    Lexes (depth + 1) (kind.closing.value.toList ++ rest) [kind.closing] depth rest := by
  cases kind with
  | arguments => exact lexes_char (c := ')') rfl (by decide) (depth + 1) rest
  | items => exact lexes_char (c := ']') rfl (by decide) (depth + 1) rest
  | entries => exact lexes_char (c := '\x7d') rfl (by decide) (depth + 1) rest

theorem separate_closing (kind : Sequence) (rest : List Char) :
    Separate (kind.closing.value.toList ++ rest) := by
  cases kind <;> exact separate_mark (by decide) (by decide) rest

/-- The comma between members. -/
def comma : Symbol := ⟨.comma, ","⟩

theorem lexes_comma (depth : Nat) (rest : List Char) :
    Lexes depth (',' :: rest) [comma] depth rest :=
  lexes_char (c := ',') rfl (by decide) depth rest

theorem separate_comma (rest : List Char) : Separate (',' :: rest) :=
  separate_mark (by decide) (by decide) rest

/-- Nothing goes on behind a member on the same line. -/
theorem separate_tail (kind : Sequence) (texts : List String) (rest : List Char) :
    Separate (texts.flatMap (fun text => ", ".toList ++ text.toList) ++
      (kind.closing.value.toList ++ rest)) := by
  cases texts with
  | nil => exact separate_closing kind rest
  | cons text texts => exact separate_comma _

/-- Texts that are read as symbols, one by one. -/
abbrev ReadsAll (texts : List String) (sss : List (List Symbol)) : Prop :=
  List.Forall₂ (fun text ss => Reads text.toList ss) texts sss

/-- Members on one line, from behind the first on. -/
theorem lexes_tail (h : ReadsAll texts sss) (kind : Sequence) (depth : Nat) (rest : List Char) :
    Lexes (depth + 1)
      (texts.flatMap (fun text => ", ".toList ++ text.toList) ++
        (kind.closing.value.toList ++ rest))
      (sss.flatMap (comma :: ·) ++ [kind.closing]) depth rest := by
  induction h with
  | nil => exact lexes_closing kind depth rest
  | @cons text ss texts sss hreads _ ih =>
    have hfirst := hreads (depth + 1) _ (separate_tail kind texts rest)
    have hcomma := (lexes_comma (depth + 1) _).trans ((lexes_blank (.inl rfl) _ _).trans hfirst)
    simpa using hcomma.trans ih

/-- The symbols of members with commas between them. -/
def joined : List (List Symbol) → List Symbol
  | [] => []
  | ss :: sss => ss ++ sss.flatMap (comma :: ·)

theorem toList_intercalate_cons (sep first : String) (texts : List String) :
    (sep.intercalate (first :: texts)).toList =
      first.toList ++ texts.flatMap fun text => sep.toList ++ text.toList := by
  induction texts generalizing first with
  | nil => simp
  | cons text texts ih =>
    rw [String.intercalate_cons_of_ne_nil (List.cons_ne_nil _ _), String.toList_append,
      String.toList_append, ih, List.flatMap_cons, List.append_assoc, List.append_assoc]

/-- Members on one line between brackets. -/
theorem lexes_inline (h : ReadsAll texts sss) (kind : Sequence) (depth : Nat) (rest : List Char) :
    Lexes depth
      ((kind.opening.value ++ ", ".intercalate texts ++ kind.closing.value).toList ++ rest)
      (kind.opening :: (joined sss ++ [kind.closing])) depth rest := by
  have hopening := lexes_opening kind depth
  cases h with
  | nil => simpa [joined] using (hopening _).trans (lexes_closing kind depth rest)
  | @cons text ss texts sss hreads htail =>
    have hfirst := hreads (depth + 1) _ (separate_tail kind texts rest)
    have hmembers := hfirst.trans (lexes_tail htail kind depth rest)
    simp only [String.toList_append, toList_intercalate_cons, joined, List.append_assoc]
    exact (hopening _).trans hmembers

/-- Every character of an indentation is blank if those of one step are. -/
theorem indentation_blank {options : LayoutOptions}
    (hindent : ∀ c ∈ options.indent.toList, c = ' ' ∨ c = '\t') (level : Nat) :
    ∀ c ∈ (options.indentation level).toList, c = ' ' ∨ c = '\t' := by
  intro c hc
  simp only [LayoutOptions.indentation, String.toList_join, List.mem_flatMap] at hc
  obtain ⟨step, hstep, hc⟩ := hc
  rw [List.eq_of_mem_replicate hstep] at hc
  exact hindent c hc

/-- A line feed inside brackets, and the indentation behind it. -/
theorem lexes_lineStart {options : LayoutOptions}
    (hindent : ∀ c ∈ options.indent.toList, c = ' ' ∨ c = '\t') (level depth : Nat)
    (rest : List Char) :
    Lexes (depth + 1) ('\n' :: ((options.indentation level).toList ++ rest)) [] (depth + 1) rest :=
  .feed (Nat.succ_ne_zero depth) (lexes_blanks (indentation_blank hindent level) (depth + 1) rest)

/-- Members one to a line between brackets. -/
theorem lexes_stacked {options : LayoutOptions}
    (hindent : ∀ c ∈ options.indent.toList, c = ' ' ∨ c = '\t') (h : ReadsAll texts sss)
    (kind : Sequence) (level depth : Nat) (rest : List Char) :
    Lexes depth
      ((options.stacked level kind.opening.value kind.closing.value texts).toList ++ rest)
      (kind.opening :: (sss.flatMap (· ++ [comma]) ++ [kind.closing])) depth rest := by
  have hopening := lexes_opening kind depth
  have hclosing := lexes_closing kind depth rest
  have hlines : Lexes (depth + 1)
      ((texts.map fun text => options.indentation (level + 1) ++ text ++ ",").flatMap
        (fun line => "\n".toList ++ line.toList) ++
          ("\n".toList ++ (options.indentation level ++ kind.closing.value).toList ++ rest))
      (sss.flatMap (· ++ [comma]) ++ [kind.closing]) depth rest := by
    induction h with
    | nil =>
      have hlast := (lexes_lineStart hindent level depth _).trans hclosing
      simpa using hlast
    | @cons text ss texts sss hreads _ ih =>
      have hitem := (hreads (depth + 1) _ (separate_comma _)).trans
        ((lexes_comma (depth + 1) _).trans ih)
      have hline := (lexes_lineStart hindent (level + 1) depth _).trans hitem
      simpa using hline
  cases h with
  | nil => simpa [LayoutOptions.stacked] using (hopening _).trans hclosing
  | cons hreads htail =>
    rw [LayoutOptions.stacked, if_neg (List.cons_ne_nil _ _)]
    dsimp only
    rw [List.cons_append, toList_intercalate_cons, List.flatMap_append, List.append_assoc,
      List.append_assoc]
    simpa using (hopening _).trans hlines

/-- The stacked layout starts with its opening bracket. -/
theorem toList_stacked {options : LayoutOptions} (level : Nat) (opener closer : String)
    (items : List String) :
    ∃ cs, (options.stacked level opener closer items).toList = opener.toList ++ cs := by
  unfold LayoutOptions.stacked
  split
  · exact ⟨closer.toList, String.toList_append⟩
  · exact ⟨_, toList_intercalate_cons _ _ _⟩

/-! ### Derivations of sequences -/

variable {ns : List Node}

/-- Symbols that derive nodes, one by one. -/
abbrev DerivesAll (c : Category) (sss : List (List Symbol)) (ns : List Node) : Prop :=
  List.Forall₂ (fun ss n => Derives c ss n) sss ns

theorem derives_tail (h : DerivesAll kind.member sss ns) {ss : List Symbol} {n : Node}
    (hfirst : Derives kind.member ss n) :
    Derives (.members kind) (ss ++ (sss.flatMap (comma :: ·) ++ [kind.closing]))
      (.list {} (n :: ns)) := by
  induction h generalizing ss n with
  | nil => exact .last hfirst (Sequence.kind_closing kind)
  | cons hnext _ ih => simpa using Derives.more hfirst rfl (ih hnext)

/-- Members with commas between them. -/
theorem derives_inline (h : DerivesAll kind.member sss ns) :
    Derives (.members kind) (joined sss ++ [kind.closing]) (.list {} ns) := by
  cases h with
  | nil => exact .close (Sequence.kind_closing kind)
  | cons hfirst htail =>
    rw [joined, List.append_assoc]
    exact derives_tail htail hfirst

/-- Members with a comma behind each. -/
theorem derives_stacked (h : DerivesAll kind.member sss ns) :
    Derives (.members kind) (sss.flatMap (· ++ [comma]) ++ [kind.closing]) (.list {} ns) := by
  induction h with
  | nil => exact .close (Sequence.kind_closing kind)
  | cons hfirst _ ih => simpa using Derives.more hfirst rfl ih

/-- The arguments of a load, from behind its module on. -/
theorem loadDerives_tail (h : DerivesAll .argument sss ns) :
    LoadDerives (sss.flatMap (comma :: ·) ++ [Sequence.arguments.closing]) ns := by
  induction h with
  | nil => exact .close rfl
  | cons hfirst _ ih => simpa using LoadDerives.more rfl hfirst ih

end StarlarkLint
