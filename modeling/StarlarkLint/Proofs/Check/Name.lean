import Mathlib.Data.Finset.Card
import Mathlib.Data.Finset.Dedup
import Mathlib.Data.List.Induction
import StarlarkLint.Check.Run
import StarlarkLint.Proofs.Check.Findings

/-!
# Repeated names

The check for duplicated names goes through the names that the declarations of a file give
themselves, and keeps the line on which each was first given.  What it keeps depends on the names
that it has passed and on nothing else: a name has a line there exactly if it was given before, and
that line is the one of the very first declaration that gave it.  So what is reported is determined
by the names alone, in whatever order they come and whatever stands between them.

## Main definitions

* `Node.Spells` — the dotted name that a callee spells.
* `DuplicatedName.GivesName` — a statement gives itself a name.
* `DuplicatedName.repeated` — the names that were given before, each with its first occurrence.

## Main results

* `DuplicatedName.given?_eq_some_iff` — when a statement gives itself a name.
* `DuplicatedName.repeats_eq` — the check finds the names that were given before.
* `DuplicatedName.findings_eq_repeated` — what is reported on the names of a file.
-/

namespace StarlarkLint

/-! ### What a statement calls itself -/

/-- A callee spells a dotted name: it is a name, or a member of what spells one. -/
inductive Node.Spells : Node → String → Prop
  | ident {span : Span} {name : String} : Spells (.ident span name) name
  | member {span : Span} {base : Node} {root name : String} (h : Spells base root) :
      Spells (.member span base name) (root ++ "." ++ name)

theorem Node.dottedName?_eq_some_iff {n : Node} {name : String} :
    n.dottedName? = some name ↔ n.Spells name := by
  constructor
  · intro h
    induction n using induction_slots generalizing name with
    | h n ih =>
      cases n with
      | ident =>
        cases h
        exact .ident
      | member span base link =>
        rw [dottedName?, Option.map_eq_some_iff] at h
        obtain ⟨root, hroot, rfl⟩ := h
        exact .member (ih base List.mem_cons_self hroot)
      | _ => cases h
  · intro h
    induction h with
    | ident => rfl
    | member _ ih => rw [dottedName?, ih, Option.map_some]

namespace DuplicatedName

/-- An argument is passed under a name. -/
def PassedAs (key : String) (n : Node) : Prop :=
  ∃ span target op value, n = .assign span (.ident target key) op value

/-- A statement gives itself a name: it is a call of something that spells a dotted name, and the
first of the arguments that are passed as its name is a literal that is not empty. -/
inductive GivesName : Node → String → Span → Prop
  | intro {call assign target literal : Span} {callee : Node} {kind op name : String}
      {before after : List Node} (hkind : callee.Spells kind) (hne : kind ≠ "")
      (hfirst : ∀ n ∈ before, ¬ PassedAs "name" n) (hname : name ≠ "") :
      GivesName (.call call callee (before ++
        .assign assign (.ident target "name") op (.string literal name) :: after)) name literal

theorem passed?_eq_some_iff {key : String} {n value : Node} : passed? key n = some value ↔
    ∃ span target op, n = .assign span (.ident target key) op value := by
  constructor
  · intro h
    cases n with
    | assign span target op other =>
      cases target with
      | ident target name =>
        rw [passed?, Option.ite_none_right_eq_some, Option.some.injEq] at h
        obtain ⟨rfl, rfl⟩ := h
        exact ⟨span, target, op, rfl⟩
      | _ => cases h
    | _ => cases h
  · rintro ⟨span, target, op, rfl⟩
    exact if_pos rfl

theorem passed?_eq_none_iff {key : String} {n : Node} :
    passed? key n = none ↔ ¬ PassedAs key n := by
  rw [Option.eq_none_iff_forall_ne_some]
  constructor
  · rintro h ⟨span, target, op, value, rfl⟩
    exact h value (passed?_eq_some_iff.mpr ⟨span, target, op, rfl⟩)
  · intro h value hvalue
    obtain ⟨span, target, op, rfl⟩ := passed?_eq_some_iff.mp hvalue
    exact h ⟨span, target, op, value, rfl⟩

theorem literal?_eq_some_iff {n : Node} {name : String} {span : Span} :
    literal? n = some (name, span) ↔ n = .string span name ∧ name ≠ "" := by
  cases n with
  | string span' value =>
    rw [literal?, Option.ite_none_left_eq_some, Option.some.injEq, Prod.mk.injEq,
      Node.string.injEq]
    constructor
    · rintro ⟨hne, rfl, rfl⟩
      exact ⟨⟨rfl, rfl⟩, hne⟩
    · rintro ⟨⟨rfl, rfl⟩, hne⟩
      exact ⟨hne, rfl, rfl⟩
  | _ =>
    constructor
    · intro h
      cases h
    · rintro ⟨h, -⟩
      cases h

/-- A statement declares something if it is a call of what spells a name, and not the empty one. -/
theorem ofStatement?_eq_some_iff {n : Node} {d : Declaration} :
    Declaration.ofStatement? n = some d ↔ n = .call d.span d.callee d.args ∧
      ∃ kind, d.callee.Spells kind ∧ kind ≠ "" := by
  have hkind : d.kind ≠ "" ↔ ∃ kind, d.callee.Spells kind ∧ kind ≠ "" := by
    simp only [← Node.dottedName?_eq_some_iff, Declaration.kind]
    cases d.callee.dottedName? with
    | none => simp
    | some kind => simp
  rw [← hkind]
  cases n with
  | call span callee args =>
    rw [Declaration.ofStatement?, Option.ite_none_left_eq_some, Option.some.injEq, Node.call.injEq]
    constructor
    · rintro ⟨hne, rfl⟩
      exact ⟨⟨rfl, rfl, rfl⟩, hne⟩
    · rintro ⟨⟨rfl, rfl, rfl⟩, hne⟩
      exact ⟨hne, rfl⟩
  | _ =>
    constructor
    · intro h
      cases h
    · rintro ⟨h, -⟩
      cases h

theorem given?_eq_some_iff {n : Node} {name : String} {span : Span} :
    given? n = some (name, span) ↔ GivesName n name span := by
  simp only [given?, Option.bind_eq_some_iff, ofStatement?_eq_some_iff, name?_eq,
    literal?_eq_some_iff]
  constructor
  · rintro ⟨d, ⟨rfl, kind, hkind, hne⟩, value, hvalue, rfl, hname⟩
    obtain ⟨before, n, after, hargs, hn, hfirst⟩ := List.findSome?_eq_some_iff.mp hvalue
    obtain ⟨assign, target, op, rfl⟩ := passed?_eq_some_iff.mp hn
    rw [hargs]
    exact .intro hkind hne (fun n hn => passed?_eq_none_iff.mp (hfirst n hn)) hname
  · intro h
    cases h with
    | intro hkind hne hfirst hname =>
      refine ⟨⟨_, _, _⟩, ⟨rfl, _, hkind, hne⟩, _, List.findSome?_eq_some_iff.mpr ?_, rfl, hname⟩
      exact ⟨_, _, _, rfl, passed?_eq_some_iff.mpr ⟨_, _, _, rfl⟩,
        fun n hn => passed?_eq_none_iff.mpr (hfirst n hn)⟩

/-! ### Names that were given before -/

/-- The first of the given names that is the given one, with its place. -/
def first? (given : List (String × Span)) (name : String) : Option (String × Span) :=
  given.find? (·.1 == name)

theorem first?_eq_none_iff {given : List (String × Span)} {name : String} :
    first? given name = none ↔ name ∉ given.map Prod.fst := by
  rw [first?, List.find?_eq_none, List.mem_map]
  constructor
  · rintro h ⟨d, hd, rfl⟩
    exact h d hd (beq_self_eq_true d.1)
  · intro h d hd heq
    exact h ⟨d, hd, beq_iff_eq.mp heq⟩

/-- The names that were given before, in order, each with its first occurrence. -/
def repeated (given : List (String × Span)) : List ((String × Span) × String × Span) :=
  given.zipIdx.filterMap fun d => (first? (given.take d.2) d.1.1).map fun first => (d.1, first)

/-- One more name is repeated if it is among those before it. -/
theorem repeated_concat (given : List (String × Span)) (d : String × Span) :
    repeated (given ++ [d]) =
      repeated given ++ ((first? given d.1).map fun first => (d, first)).toList := by
  have hbefore : ∀ e ∈ given.zipIdx, (given ++ [d]).take e.2 = given.take e.2 := by
    intro e he
    apply List.take_append_of_le_length
    exact (List.snd_lt_of_mem_zipIdx he).le
  rw [repeated, List.zipIdx_append, List.filterMap_append]
  congr 1
  · apply List.filterMap_congr
    intro e he
    rw [hbefore e he]
  · rw [List.zipIdx_singleton, List.filterMap_cons, List.filterMap_nil, Nat.zero_add,
      List.take_left]
    cases first? given d.1 <;> rfl

/-- Every name is repeated or the first of its kind. -/
theorem length_repeated (given : List (String × Span)) :
    (repeated given).length + (given.map Prod.fst).toFinset.card = given.length := by
  induction given using List.reverseRecOn with
  | nil => rfl
  | append_singleton given d ih =>
    rw [repeated_concat, List.length_append, List.length_append, List.map_append,
      List.toFinset_append, List.map_singleton, List.length_singleton, Finset.union_comm]
    have hsingle : [d.1].toFinset ∪ (given.map Prod.fst).toFinset =
        insert d.1 (given.map Prod.fst).toFinset := rfl
    rw [hsingle]
    cases hfirst : first? given d.1 with
    | none =>
      have hnew : d.1 ∉ (given.map Prod.fst).toFinset := by
        rw [List.mem_toFinset]
        exact first?_eq_none_iff.mp hfirst
      rw [Finset.card_insert_of_notMem hnew]
      simp only [Option.map_none, Option.toList_none, List.length_nil]
      omega
    | some first =>
      have hold : d.1 ∈ (given.map Prod.fst).toFinset := by
        rw [List.mem_toFinset]
        by_contra hnew
        rw [first?_eq_none_iff.mpr hnew] at hfirst
        cases hfirst
      rw [Finset.insert_eq_of_mem hold]
      simp only [Option.map_some, Option.toList_some, List.length_singleton]
      omega

/-! ### The names that the check keeps -/

/-- What the check keeps: the names it has passed, each with the line on which it was first given.
-/
def FirstLines (seen : List (String × Int)) (before : List (String × Span)) : Prop :=
  ∀ name, seen.lookup name = (first? before name).map (·.2.start.line)

theorem firstLines_nil : FirstLines [] [] := fun _ => rfl

variable {seen : List (String × Int)} {before : List (String × Span)} {d : String × Span}

/-- A name that has come before changes nothing. -/
theorem FirstLines.again (h : FirstLines seen before) (hd : first? before d.1 ≠ none) :
    FirstLines seen (before ++ [d]) := by
  intro name
  rw [h name, first?, first?, List.find?_append]
  cases hfirst : before.find? (·.1 == name) with
  | some first => rfl
  | none =>
    have hne : (d.1 == name) = false := by
      rw [beq_eq_false_iff_ne]
      rintro rfl
      exact hd hfirst
    rw [List.find?_singleton, hne]
    rfl

/-- A new name is kept with its line. -/
theorem FirstLines.new (h : FirstLines seen before) (hd : first? before d.1 = none) :
    FirstLines ((d.1, d.2.start.line) :: seen) (before ++ [d]) := by
  intro name
  rw [List.lookup_cons, h name, first?, first?, List.find?_append, List.find?_singleton]
  by_cases hname : d.1 = name
  · subst hname
    rw [first?] at hd
    simp [hd]
  · have hne : (d.1 == name) = false := beq_eq_false_iff_ne.mpr hname
    have hne' : (name == d.1) = false := beq_eq_false_iff_ne.mpr (Ne.symm hname)
    rw [hne, hne']
    simp

/-- What is said of a name that was given before: the name, its place, and the line of its first
occurrence. -/
def told (r : (String × Span) × String × Span) : String × Span × Int :=
  (r.1.1, r.1.2, r.2.2.start.line)

/-- What is found behind the names that have been passed completes what is repeated among them. -/
theorem told_append_repeats (h : FirstLines seen before) (rest : List (String × Span)) :
    (repeated before).map told ++ repeats seen rest = (repeated (before ++ rest)).map told := by
  induction rest generalizing seen before with
  | nil => rw [repeats, List.append_nil, List.append_nil]
  | cons d rest ih =>
    have hrest : before ++ d :: rest = (before ++ [d]) ++ rest := List.append_cons ..
    rw [repeats, h d.1, hrest]
    cases hfirst : first? before d.1 with
    | none =>
      show (repeated before).map told ++ repeats ((d.1, d.2.start.line) :: seen) rest = _
      rw [← ih (h.new hfirst), repeated_concat, hfirst]
      simp
    | some first =>
      have hd : first? before d.1 ≠ none := by rw [hfirst]; exact Option.some_ne_none _
      show (repeated before).map told ++ (d.1, d.2, first.2.start.line) :: repeats seen rest = _
      rw [← ih (h.again hd), repeated_concat, hfirst]
      simp [told]

/-- **The check finds the names that were given before.** -/
theorem repeats_eq (given : List (String × Span)) :
    repeats [] given = (repeated given).map told :=
  told_append_repeats firstLines_nil given

/-- What is said about a name of a file that was given before. -/
theorem findings_eq_map_repeated {f : SourceFile} (h : f.dialect = .build) :
    findings f = (repeated (f.statements.filterMap given?)).map fun r =>
      f.finding r.1.2 Check.duplicatedName.name (message r.1.1 r.2.2.start.line) := by
  rw [findings, if_pos h, names_eq, repeats_eq, List.map_map]
  rfl

/-- **Repeated names are reported exactly.**  The statements that count are the calls of something
that spells a dotted name whose first argument that is passed as a name is a literal that is not
empty.  In the order of the statements, each that has an earlier one of the same name gives one
finding, and the others give none; the finding is at the literal, and its message gives the name and
the line of the literal of the first statement of that name.  So there are as many findings as there
are such statements, less one for each name. -/
theorem findings_eq_repeated {f : SourceFile} (h : f.dialect = .build) (exempt : List String)
    (fix : Bool) :
    let given := f.statements.filterMap given?
    let findings := (Check.duplicatedName.run exempt fix f).findings
    (∀ n name span, given? n = some (name, span) ↔ GivesName n name span) ∧
    (findings = given.zipIdx.filterMap fun d =>
      ((given.take d.2).find? (·.1 == d.1.1)).map fun first =>
        f.finding d.1.2 "duplicated-name"
          ("A rule with name \"" ++ d.1.1 ++ "\" was already found on line " ++
            toString first.2.start.line ++ ". " ++
            "Even if it's valid for Blaze, this may confuse other tools. " ++
            "Please rename it and use different names.")) ∧
    findings.length + (given.map Prod.fst).toFinset.card = given.length := by
  intro given findings
  have hfindings : findings = _ := findings_eq_map_repeated h
  refine ⟨fun n name span => given?_eq_some_iff, ?_, ?_⟩
  · rw [hfindings, repeated, List.map_filterMap]
    apply List.filterMap_congr
    intro d _
    rw [Option.map_map]
    rfl
  · rw [hfindings, List.length_map]
    exact length_repeated given

set_option maxRecDepth 4000 in
/-- Two names that come again with each other in between, one of them in a call of a member that
passes a second name, and next to a name that is not a literal. -/
theorem findings_eq_repeated_interleaved :
    let literal (line : Int) : Span := ⟨⟨line, 8⟩, ⟨line, 11⟩⟩
    let argument (value : Node) : Node := .assign {} (.ident {} "name") "=" value
    let rule (callee : Node) (line : Int) (name : String) (rest : List Node) : Node :=
      .call {} callee (argument (.string (literal line) name) :: rest)
    let f : SourceFile := {
      path := "BUILD"
      dialect := .build
      statements := [
        rule (.ident {} "r") 1 "a" [],
        rule (.ident {} "s") 2 "b" [],
        .call {} (.ident {} "r") [argument (.ident {} "a")],
        rule (.member {} (.ident {} "native") "r") 4 "a" [argument (.string {} "c")],
        rule (.ident {} "s") 5 "b" [],
        rule (.ident {} "r") 6 "a" []] }
    let findings := (Check.duplicatedName.run [] false f).findings
    f.dialect = .build ∧ findings =
        [f.finding (literal 4) "duplicated-name"
            ("A rule with name \"a\" was already found on line 1. Even if it's valid for Blaze, "
              ++ "this may confuse other tools. Please rename it and use different names."),
          f.finding (literal 5) "duplicated-name"
            ("A rule with name \"b\" was already found on line 2. Even if it's valid for Blaze, "
              ++ "this may confuse other tools. Please rename it and use different names."),
          f.finding (literal 6) "duplicated-name"
            ("A rule with name \"a\" was already found on line 1. Even if it's valid for Blaze, "
              ++ "this may confuse other tools. Please rename it and use different names.")] ∧
      findings.length + 2 = 5 := by
  intro literal argument rule f findings
  obtain ⟨-, hfindings, hlength⟩ := findings_eq_repeated (f := f) rfl [] false
  have hgiven : f.statements.filterMap given? =
      [("a", literal 1), ("b", literal 2), ("a", literal 4), ("b", literal 5), ("a", literal 6)] :=
    by cbv
  rw [hgiven] at hfindings hlength
  refine ⟨rfl, hfindings.trans ?_, hlength⟩
  decide

end DuplicatedName

end StarlarkLint
