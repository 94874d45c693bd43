import StarlarkLint.Check.Run
import StarlarkLint.Proofs.Check.Category
import StarlarkLint.Proofs.Check.Native
import StarlarkLint.Proofs.Node.Walking

/-!
# Checks in place

A file is checked in place: whoever asks for checks holds one tree, and a check that edits leaves
its changes there.  Two of the checks go through the tree with an editor, which writes back every
slot that it passes, whether they are to fix anything or not.  As long as their editors keep what
they see, the tree is the one that it was, and what they see is what a walk sees.

So a check in place comes to what the check of a file comes to that is handed over; and of checks in
a row that do not fix, each reports what it would report alone.

## Main definitions

* `Check.inPlace`, `SourceFile.lintInPlace` — a check, and the checks of a list of categories, on
  the file that is there.

## Main results

* `Check.run_inPlace`, `SourceFile.run_lintInPlace` — checks in place come to what checks come to.
* `SourceFile.lintInPlace_readOnly` — who changes a file, and what is reported when nobody does.
-/

namespace StarlarkLint

/-! ### Checks on the file that is there -/

namespace ConstantGlob

/-- The visitor of globs, which reports them and keeps them. -/
def visitor : Editor := fun _ _ => .keep

theorem keeps_visitor : visitor.Keeps := fun _ _ => rfl

/-- What is reported on a visit to a glob. -/
def report? (f : SourceFile) (node : Node) : Option Finding :=
  (pattern? node).map fun (span, pattern) =>
    f.finding span Check.constantGlob.name (message pattern)

/-- Go through the globs of the file that is there, reporting on each. -/
def inPlace : StateM SourceFile (List Finding) := do
  let f ← get
  if f.dialect = .generic then
    return []
  else
    set (f.edit (visitor.onCallsOf "glob"))
    return (f.node.editCalls "glob" visitor).visits.filterMap fun visit => report? f visit.1

theorem filterMap_report? (f : SourceFile) (h : f.dialect ≠ .generic) :
    (f.node.editCalls "glob" visitor).visits.filterMap (fun visit => report? f visit.1) =
      findings f := by
  rw [Node.editCalls_of_keeps keeps_visitor, findings, if_neg h, globs, List.map_filterMap,
    List.filter_map, List.filterMap_map]
  rfl

/-- What is reported on the way is what there is to find, and the file is the one that was there. -/
theorem run_inPlace (f : SourceFile) : inPlace.run f = (findings f, f) := by
  by_cases h : f.dialect = .generic
  · simp only [inPlace, findings, StateT.run_bind, StateT.run_get, pure_bind, h, if_true,
      StateT.run_pure]
    rfl
  · have hfile : f.edit (visitor.onCallsOf "glob") = f :=
      SourceFile.edit_of_keeps (keeps_visitor.onCallsOf "glob") f
    simp only [inPlace, StateT.run_bind, StateT.run_get, pure_bind, h, if_false, StateT.run_set,
      StateT.run_pure, hfile, filterMap_report? f h]
    rfl

end ConstantGlob

namespace Native

/-- The visitor of all nodes, which writes the bare name in place of a member only when it is to
fix. -/
def visitor (fix : Bool) : Editor := fun node path => if fix then editor node path else .keep

theorem keeps_visitor : (visitor false).Keeps := fun _ _ => rfl

/-- What is reported on a visit. -/
def report? (f : SourceFile) (node : Node) : Option Finding :=
  if (global? node).isSome then some (f.finding node.span Check.nativeBuild.name message) else none

/-- Go through the file that is there, fixing or else reporting its members. -/
def inPlace (fix : Bool) : StateM SourceFile (List Finding) := do
  let f ← get
  if f.dialect = .build then
    set (f.edit (visitor fix))
    return (f.node.edit (visitor fix)).visits.filterMap fun visit =>
      if fix then none else report? f visit.1
  else
    return []

theorem filterMap_report? (f : SourceFile) (h : f.dialect = .build) :
    (f.node.edit (visitor false)).visits.filterMap (fun visit => report? f visit.1) =
      findings f := by
  rw [Node.edit_of_keeps keeps_visitor, findings, if_pos h, List.filter_map, List.map_map,
    ← List.filterMap_eq_map, List.filterMap_filter]
  refine List.filterMap_congr fun visit _ => ?_
  simp [report?]

theorem run_inPlace (fixing : Bool) (f : SourceFile) : (inPlace fixing).run f =
    if f.dialect = .build then
      ((f.node.edit (visitor fixing)).visits.filterMap fun visit =>
        if fixing then none else report? f visit.1, f.edit (visitor fixing))
    else ([], f) := by
  by_cases h : f.dialect = .build
  · simp only [inPlace, StateT.run_bind, StateT.run_get, pure_bind, h, if_true, StateT.run_set,
      StateT.run_pure]
    rfl
  · simp only [inPlace, StateT.run_bind, StateT.run_get, pure_bind, h, if_false, StateT.run_pure]
    rfl

/-- When it is not to fix, what is reported on the way is what there is to find. -/
theorem run_inPlace_false (f : SourceFile) : (inPlace false).run f = (findings f, f) := by
  rw [run_inPlace]
  by_cases h : f.dialect = .build
  · rw [if_pos h, SourceFile.edit_of_keeps keeps_visitor, ← filterMap_report? f h]
    rfl
  · rw [if_neg h, findings, if_neg h]

/-- When it is to fix, it leaves the fixed file and reports nothing. -/
theorem run_inPlace_true (f : SourceFile) : (inPlace true).run f = ([], fix f) := by
  have hvisitor : visitor true = editor := rfl
  rw [run_inPlace, fix, hvisitor]
  by_cases h : f.dialect = .build
  · rw [if_pos h, if_pos h]
    simp only [if_true, List.filterMap_none]
  · rw [if_neg h, if_neg h]

end Native

variable (exempt : List String)

namespace Check

/-- Run a check on the file that is there.  All but two of the checks only look at it. -/
def inPlace (fix : Bool) : Check → StateM SourceFile (List Finding)
  | constantGlob => ConstantGlob.inPlace
  | duplicatedName => DuplicatedName.findings <$> get
  | nativeBuild => Native.inPlace fix
  | nativePackage => Native.packageFindings <$> get
  | positionalArgs => PositionalArgs.findings exempt <$> get
  | starArgs => StarArgs.findings <$> get

/-- **A check in place comes to what the check comes to.** -/
theorem run_inPlace (fix : Bool) (check : Check) (f : SourceFile) :
    (check.inPlace exempt fix).run f =
      ((check.run exempt fix f).findings, (check.run exempt fix f).file) := by
  cases check with
  | constantGlob => exact ConstantGlob.run_inPlace f
  | nativeBuild =>
    cases fix with
    | false => exact Native.run_inPlace_false f
    | true => exact Native.run_inPlace_true f
  | _ => rfl

/-- Run checks one after another, adding what each reports. -/
def allInPlace (fix : Bool) (checks : List Check) (found : List Finding) :
    StateM SourceFile (List Finding) :=
  checks.foldlM (fun found check => (found ++ ·) <$> check.inPlace exempt fix) found

theorem run_allInPlace (fix : Bool) (checks : List Check) (found : List Finding) (f : SourceFile) :
    (allInPlace exempt fix checks found).run f =
      (found ++ (runAll exempt fix f checks).findings, (runAll exempt fix f checks).file) := by
  induction checks generalizing found f with
  | nil =>
    rw [runAll, List.append_nil]
    rfl
  | cons check checks ih =>
    have hfirst : (allInPlace exempt fix (check :: checks) found).run f =
        (allInPlace exempt fix checks (found ++ (check.run exempt fix f).findings)).run
          (check.run exempt fix f).file := by
      rw [allInPlace, List.foldlM_cons, StateT.run_bind, StateT.run_map, run_inPlace]
      rfl
    rw [hfirst, ih, List.append_assoc, runAll]

/-- Checks that do not fix all see the file that was there. -/
theorem runAll_false (f : SourceFile) (checks : List Check) :
    runAll exempt false f checks =
      ⟨f, checks.flatMap fun check => (check.run exempt false f).findings⟩ := by
  induction checks with
  | nil => rfl
  | cons check checks ih =>
    have hfile : (check.run exempt false f).file = f := by cases check <;> rfl
    rw [runAll, hfile, ih, List.flatMap_cons]

end Check

/-! ### Categories -/

/-- Run the checks of a list of categories on the file that is there.  If one of the categories is
unknown, none runs. -/
def SourceFile.lintInPlace (fix : Bool) (categories : List String) :
    ExceptT UnknownCategories (StateM SourceFile) (List Finding) := do
  let checks ← ofExcept (Check.ofNames categories)
  Check.allInPlace exempt fix checks []

/-- Checks in place come to what the checks of a file come to. -/
theorem SourceFile.run_lintInPlace (fix : Bool) (categories : List String) (f : SourceFile) :
    (lintInPlace exempt fix categories).run.run f =
      match f.lint categories fix exempt with
      | .error e => (.error e, f)
      | .ok checked => (.ok checked.findings, checked.file) := by
  rw [lintInPlace, lint]
  cases h : Check.ofNames categories with
  | error e => rfl
  | ok checks =>
    have hlift : (do
        let checks ← ofExcept (Except.ok checks)
        Check.allInPlace exempt fix checks [] :
          ExceptT UnknownCategories (StateM SourceFile) (List Finding)).run.run f =
        (Except.ok <$> Check.allInPlace exempt fix checks []).run f := rfl
    rw [hlift, StateT.run_map, Check.run_allInPlace]
    rfl

/-- What the check of a category reports on a file, if it is not to fix. -/
def Check.reports (f : SourceFile) (category : String) : List Finding :=
  match ofName? category with
  | some check => ((check.inPlace exempt false).run f).1
  | none => []

/-- **Reporting only looks at a file.**  If a category is unknown, the unknown ones are named once
each, in order, and the file stays as it is even when it is to be fixed.  If none is, and nothing is
to be fixed, the file stays as it is and each check reports what it would report alone.  When files
are to be fixed, only the check for members of the native module changes them, and only package
descriptions. -/
theorem SourceFile.lintInPlace_readOnly (f : SourceFile) :
    (∀ fix categories, (∃ name ∈ categories, Check.ofName? name = none) →
      ∃ e, (lintInPlace exempt fix categories).run.run f = (.error e, f) ∧
        e.names.Pairwise (· < ·) ∧
          ∀ name, name ∈ e.names ↔ name ∈ categories ∧ Check.ofName? name = none) ∧
    (∀ categories, (∀ name ∈ categories, Check.ofName? name ≠ none) →
      (lintInPlace exempt false categories).run.run f =
        (.ok (categories.flatMap (Check.reports exempt f)), f)) ∧
    (∀ check : Check, check ≠ .nativeBuild ∨ f.dialect ≠ .build →
      ((check.inPlace exempt true).run f).2 = f) ∧
    ∀ fix categories, (lintInPlace exempt fix categories).run.run f =
      match f.lint categories fix exempt with
      | .error e => (.error e, f)
      | .ok checked => (.ok checked.findings, checked.file) := by
  refine ⟨fun fix categories hunknown => ?_, fun categories hknown => ?_, fun check h => ?_,
    fun fix categories => run_lintInPlace exempt fix categories f⟩
  · have herror := Check.ofNames_eq_error_iff.mpr ⟨hunknown, rfl⟩
    refine ⟨_, ?_, Check.pairwise_names_of_ofNames herror,
      fun name => Check.mem_names_of_ofNames herror⟩
    rw [run_lintInPlace, lint, herror]
    rfl
  · cases hchecks : Check.ofNames categories with
    | error e =>
      obtain ⟨⟨name, hname, hnone⟩, -⟩ := Check.ofNames_eq_error_iff.mp hchecks
      exact absurd hnone (hknown name hname)
    | ok checks =>
      have hlint : f.lint categories false exempt = .ok (Check.runAll exempt false f checks) := by
        rw [lint, hchecks]
        rfl
      rw [run_lintInPlace, hlint, Check.runAll_false, Check.ofNames_eq_ok_iff.mp hchecks,
        List.flatMap_map]
      have hreports : ∀ check : Check,
          (check.run exempt false f).findings = Check.reports exempt f check.name := by
        intro check
        rw [Check.reports, Check.ofName?_name]
        dsimp only
        rw [Check.run_inPlace]
      simp only [hreports]
  · rw [Check.run_inPlace]
    cases check with
    | nativeBuild => exact Native.fix_of_dialect_ne (h.resolve_left fun hne => hne rfl)
    | _ => rfl

/-- A call on a member of the native module: with an unknown category it is not fixed, and both
checks that go through it with an editor leave it as it is when they report. -/
theorem SourceFile.lintInPlace_readOnly_native_glob :
    let glob : Node := .call {} (.member {} (.ident {} "native") "glob") [.string {} "x"]
    let f : SourceFile := { path := "BUILD", dialect := .build, statements := [glob] }
    (∃ e, (lintInPlace [] true ["native-build", "x", "a", "x"]).run.run f = (.error e, f) ∧
      e.names.Pairwise (· < ·) ∧ ∀ name, name ∈ e.names ↔
        name ∈ ["native-build", "x", "a", "x"] ∧ Check.ofName? name = none) ∧
    (lintInPlace [] false ["constant-glob", "native-build"]).run.run f =
      (.ok [f.finding {} "native-build" Native.message], f) ∧
    ((Check.constantGlob.inPlace [] true).run f).2 = f := by
  intro glob f
  obtain ⟨hunknown, hreports, hfile, -⟩ := SourceFile.lintInPlace_readOnly [] f
  refine ⟨hunknown true _ ⟨"x", by decide, by decide⟩, ?_, hfile _ (.inl (by decide))⟩
  exact hreports ["constant-glob", "native-build"] (by decide)

end StarlarkLint
