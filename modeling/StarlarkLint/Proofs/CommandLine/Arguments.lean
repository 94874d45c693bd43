import StarlarkLint.CommandLine.Arguments
import StarlarkLint.Proofs.Except

/-!
# Switches around operands

Switches act upon what is given and on nothing else: they neither look at the operands nor at what
was given before.  So words that come to switches only may stand in front of the operands and behind
them, and what they come to is put together.

A word that does not start with a dash is an operand.

## Main definitions

* `Usage.Switches` — words that hold switches and their values only.

## Main results

* `Usage.exists_acts` — words that leave no operands behind add switches, whatever follows them.
* `Usage.parse_operands` — a command line with operands between switches.
-/

namespace StarlarkLint

/-- Put more switches in front of those that were met. -/
def Arguments.more (given : List (String × Option String)) (a : Arguments) : Arguments :=
  { a with given := given ++ a.given }

theorem Arguments.more_more (later given : List (String × Option String)) (a : Arguments) :
    (a.more given).more later = a.more (later ++ given) := by
  simp [more]

/-- Words that hold switches and their values, and neither operands nor dividers nor words that have
no place; and what is given by them. -/
def Usage.Switches (usage : Usage) (words : List String)
    (given : List (String × Option String)) : Prop :=
  "--" ∉ words ∧ ∃ ws, Word.classifyAll usage words = .ok ws ∧ usage.act ws {} = .ok { given }

namespace Arguments

/-! ### Single switches -/

/-- A step that depends on nothing that was met before, and adds switches to it. -/
def Adds (step : Arguments → Except Ending Arguments)
    (given : List (String × Option String)) : Prop :=
  ∀ a, step a = .ok (a.more given)

variable {s : Switch} {a a' : Arguments}

theorem adds_flag (h : flag s a = .ok a') : Adds (flag s) [(s.key, none)] := by
  intro b
  unfold flag at h ⊢
  split at h
  · cases h
  · rfl

theorem adds_withValue {value : String} (h : withValue s value a = .ok a') :
    ∃ given, Adds (withValue s value) given := by
  unfold withValue at h
  split at h
  · next choices htakes =>
    by_cases hdivider : value = "--"
    · exact ⟨[(s.key, none)], fun b => by simp [withValue, htakes, hdivider, more]⟩
    · rw [if_neg hdivider] at h
      split at h
      · next hchoice =>
        exact ⟨[(s.key, some value)], fun b => by
          simp [withValue, htakes, hdivider, hchoice, more]⟩
      · cases h
  · cases h

/-- One step behind another. -/
theorem Adds.bind {first second : Arguments → Except Ending Arguments}
    {given later : List (String × Option String)} (hfirst : Adds first given)
    (hsecond : Adds second later) : Adds (fun b => first b >>= second) (later ++ given) := by
  intro b
  dsimp only
  rw [hfirst, ← more_more]
  exact hsecond _

theorem adds_flags {switches : List Switch} (h : flags switches a = .ok a') :
    ∃ given, Adds (flags switches) given := by
  induction switches generalizing a with
  | nil => exact ⟨[], fun b => rfl⟩
  | cons s rest ih =>
    rw [flags, bind_eq_ok_iff] at h
    obtain ⟨b, hb, h⟩ := h
    obtain ⟨given, hgiven⟩ := ih h
    exact ⟨given ++ [(s.key, none)], (adds_flag hb).bind hgiven⟩

/-- Switches that stand alone, and behind them one with a value. -/
theorem adds_flags_withValue {switches : List Switch} {last : Switch} {value : String}
    (h : (flags switches a >>= withValue last value) = .ok a') :
    ∃ given, Adds (fun b => flags switches b >>= withValue last value) given := by
  rw [bind_eq_ok_iff] at h
  obtain ⟨b, hb, hlast⟩ := h
  obtain ⟨given, hgiven⟩ := adds_flags hb
  obtain ⟨later, hlater⟩ := adds_withValue hlast
  exact ⟨later ++ given, hgiven.bind hlater⟩

/-- There are no operands so far, and no words that have no place. -/
def Clean (a : Arguments) : Prop := a.operands = none ∧ a.stray = false

/-- Switches leave it at that. -/
theorem Adds.clean {step : Arguments → Except Ending Arguments}
    {given : List (String × Option String)} (h : Adds step given) (ha : step a = .ok a')
    (hclean : a'.Clean) : a.Clean := by
  rw [h, Except.ok.injEq] at ha
  subst ha
  exact hclean

theorem not_clean_plain {many : Bool} {words : List Word} : ¬ (a.plain many words).Clean := by
  unfold plain
  split <;> simp [Clean]

end Arguments

namespace Usage

open Arguments

variable {usage : Usage}

/-- Words that add switches, whatever was met before and whatever follows them; they do not start
like operands. -/
def Acts (usage : Usage) (ws : List Word) (given : List (String × Option String)) : Prop :=
  (∀ rest b, usage.act (ws ++ rest) b = usage.act rest (b.more given)) ∧
    ∀ w ∈ ws.head?, w.isPlain = false

/-- A step that adds switches, in front of words that do. -/
theorem Acts.cons {step : Arguments → Except Ending Arguments} {ws : List Word} {w : Word}
    {given later : List (String × Option String)} (front : List Word) (hws : usage.Acts ws later)
    (hstep : Adds step given) (hw : w.isPlain = false)
    (hact : ∀ rest b, usage.act (w :: front ++ (ws ++ rest)) b =
      step b >>= usage.act (ws ++ rest)) :
    usage.Acts (w :: front ++ ws) (later ++ given) := by
  refine ⟨fun rest b => ?_, by simpa using hw⟩
  rw [List.append_assoc, hact, hstep]
  exact (hws.1 rest _).trans (by rw [more_more])

/-- **Words that leave no operands behind and no words without a place are switches.** -/
theorem exists_acts {ws : List Word} {a a' : Arguments} (h : usage.act ws a = .ok a')
    (hclean : a'.Clean) : a.Clean ∧ ∃ given, usage.Acts ws given := by
  fun_induction Usage.act usage ws a with
  | case1 a =>
    cases h
    exact ⟨hclean, [], fun rest b => rfl, by simp⟩
  | case2 a rest ih =>
    -- a word that has no place is not forgotten
    obtain ⟨hnot, -⟩ := ih h
    cases hnot.2
  | case3 a s name attached rest switches hcluster ih =>
    rw [bind_eq_ok_iff] at h
    obtain ⟨b, hb, h⟩ := h
    obtain ⟨hbclean, later, hrest⟩ := ih b h
    obtain ⟨given, hgiven⟩ := adds_flags hb
    refine ⟨hgiven.clean hb hbclean, _, hrest.cons [] hgiven rfl fun more c => ?_⟩
    rw [List.singleton_append, act, hcluster]
  | case4 a s name attached rest switches last value hcluster ih =>
    rw [← bind_assoc, bind_eq_ok_iff] at h
    obtain ⟨b, hb, h⟩ := h
    obtain ⟨hbclean, later, hrest⟩ := ih b h
    obtain ⟨given, hgiven⟩ := adds_flags_withValue hb
    refine ⟨hgiven.clean hb hbclean, _, hrest.cons [] hgiven rfl fun more c => ?_⟩
    rw [List.singleton_append, act, hcluster, bind_assoc]
  | case5 a s name attached switches last hcluster value behind ih =>
    rw [← bind_assoc, bind_eq_ok_iff] at h
    obtain ⟨b, hb, h⟩ := h
    obtain ⟨hbclean, later, hrest⟩ := ih b h
    obtain ⟨given, hgiven⟩ := adds_flags_withValue hb
    refine ⟨hgiven.clean hb hbclean, _,
      hrest.cons [.operand value] hgiven rfl fun more c => ?_⟩
    rw [List.cons_append, List.singleton_append, act, hcluster, bind_assoc]
  | case6 => cases h
  | case7 => cases h
  | case8 a word rest _ _ more ih => exact absurd (ih h).1 not_clean_plain

/-- The words of switches act as such, and add what is given by them. -/
theorem Switches.acts {words : List String} {given : List (String × Option String)}
    (h : usage.Switches words given) :
    ∃ ws, Word.classifyAll usage words = .ok ws ∧ usage.Acts ws given := by
  obtain ⟨-, ws, hws, hact⟩ := h
  obtain ⟨-, added, hadded⟩ := exists_acts hact ⟨rfl, rfl⟩
  refine ⟨ws, hws, ?_⟩
  -- what is given is what was added to nothing
  have hnone := hadded.1 [] {}
  rw [List.append_nil, hact, act, Except.ok.injEq] at hnone
  have hgiven : given = added := by simpa [more] using hnone
  rwa [hgiven]

/-- No words give nothing. -/
theorem switches_nil : usage.Switches [] [] := ⟨by simp, [], rfl, by rw [act]⟩

end Usage

/-! ### Operands -/

namespace Word

variable {usage : Usage}

/-- A word that does not start with a dash is an operand. -/
theorem classify_operand {word : String} (h : word.toList.head? ≠ some '-') :
    classify usage word = .ok (.operand word) := by
  unfold classify
  split
  · next hword => simp [hword] at h
  · rfl

theorem classifyAll_operands {words : List String}
    (h : ∀ word ∈ words, word.toList.head? ≠ some '-') :
    classifyAll usage words = .ok (words.map .operand) := by
  induction words with
  | nil => rfl
  | cons word words ih =>
    rw [List.forall_mem_cons] at h
    have hne : word ≠ "--" := by
      rintro rfl
      exact h.1 rfl
    rw [classifyAll, if_neg hne, classify_operand h.1, ih h.2]
    rfl

/-- Words without a divider do not tell what later words are. -/
theorem classifyAll_append {words rest : List String} {ws rs : List Word} (h : "--" ∉ words)
    (hws : classifyAll usage words = .ok ws) (hrs : classifyAll usage rest = .ok rs) :
    classifyAll usage (words ++ rest) = .ok (ws ++ rs) := by
  induction words generalizing ws with
  | nil =>
    cases hws
    exact hrs
  | cons word words ih =>
    rw [List.mem_cons, not_or] at h
    rw [classifyAll, if_neg (Ne.symm h.1), bind_eq_ok_iff] at hws
    obtain ⟨first, hfirst, hws⟩ := hws
    rw [bind_eq_ok_iff] at hws
    obtain ⟨more, hmore, hws⟩ := hws
    cases hws
    rw [List.cons_append, classifyAll, if_neg (Ne.symm h.1), hfirst, ih h.2 hmore]
    rfl

end Word

namespace Usage

open Arguments

variable {usage : Usage}

/-- Operands that stand together are met as they are, if there may be more than one. -/
theorem act_operands (hmany : usage.manyOperands = true) {texts : List String}
    (hsome : texts ≠ []) (hdivider : "--" ∉ texts) {ws : List Word}
    (hws : ∀ w ∈ ws.head?, w.isPlain = false) (given : List (String × Option String)) :
    usage.act (texts.map .operand ++ ws) { given } =
      usage.act ws { given, operands := some texts } := by
  obtain ⟨text, texts, rfl⟩ := List.exists_cons_of_ne_nil hsome
  have htake : (texts.map Word.operand ++ ws).takeWhile Word.isPlain = texts.map Word.operand := by
    rw [List.takeWhile_append_of_pos (by simp [Word.isPlain])]
    cases ws with
    | nil => simp
    | cons w ws => simp [hws w rfl]
  have hplain : plain true (.operand text :: texts.map .operand) { given } =
      { given, operands := some (text :: texts) } := by
    have hmap : ((text :: texts).map Word.operand).map Word.plainText = text :: texts := by
      simp [Function.comp_def, Word.plainText]
    have herase : (text :: texts).erase "--" = text :: texts := List.erase_of_not_mem hdivider
    simp only [plain, operandWords, ← List.map_cons, if_pos, hmap, herase]
    simp
  rw [List.map_cons, List.cons_append, act]
  · simp only [htake]
    rw [hmany, hplain, List.drop_left']
    rfl
  · simp
  · simp

/-- **A command line with operands between switches.** -/
theorem parse_operands (hmany : usage.manyOperands = true) {before after texts : List String}
    {first last : List (String × Option String)} (hbefore : usage.Switches before first)
    (hafter : usage.Switches after last) (hsome : texts ≠ [])
    (hdash : ∀ text ∈ texts, text.toList.head? ≠ some '-') :
    usage.parse (before ++ (texts ++ after)) =
      .ok { given := last ++ first, operands := some texts } := by
  have hdivider : "--" ∉ texts := fun hmem => hdash _ hmem rfl
  obtain ⟨bs, hbs, hbacts⟩ := hbefore.acts
  obtain ⟨as, has, haacts⟩ := hafter.acts
  have hclassify : Word.classifyAll usage (before ++ (texts ++ after)) =
      .ok (bs ++ (texts.map .operand ++ as)) :=
    Word.classifyAll_append hbefore.1 hbs
      (Word.classifyAll_append hdivider (Word.classifyAll_operands hdash) has)
  have hact : usage.act (bs ++ (texts.map .operand ++ as)) {} =
      .ok { given := last ++ first, operands := some texts } := by
    have hlast := haacts.1 [] { given := first, operands := some texts }
    have hfirst : ({} : Arguments).more first = { given := first } := by simp [more]
    rw [List.append_nil, act] at hlast
    rw [hbacts.1, hfirst, act_operands hmany hsome hdivider haacts.2, hlast]
    rfl
  rw [parse, hclassify]
  simp [bind, Except.bind, hact]

end Usage

end StarlarkLint
