import Mathlib
import StarlarkLint.Proofs.Check.Findings
import StarlarkLint.Proofs.Layout.File

/-!
# Running checks with fixes again

Checks that run in the order in which they are listed do not all see the same file: those before the
check for members of the native module see the file as it was, and those after it the fixed one.
When they run again, the first ones see the fixed file too, and the fix is made once more before the
others run.  So a second run reports what the first one did unless something comes to light with
these fixes.

## Main definitions

* `Check.InOrder` — checks that come in the order in which they are listed.
* `Check.Emerges` — what a check finds in the second run for the first time.

## Main results

* `Check.findings_runAll` — what checks in order find.
* `SourceFile.lint_again_iff` — when a second run reports what the first one did.
-/

namespace StarlarkLint

open Node

namespace Check

/-! ### Checks in order -/

/-- The place of a check in the order in which checks are listed. -/
def place (check : Check) : ℕ := all.idxOf check

/-- Checks that come in the order in which they are listed, some more than once perhaps. -/
def InOrder (checks : List Check) : Prop := checks.Pairwise fun a b => a.place ≤ b.place

/-- The file that a check sees in a run of checks in order that makes the given number of fixes. -/
def seen (fixes : ℕ) (f : SourceFile) (check : Check) : SourceFile :=
  if check.place < nativeBuild.place then f else Native.fix^[fixes] f

theorem seen_zero (f : SourceFile) (check : Check) : check.seen 0 f = f := ite_self f

theorem file_run_of_ne {check : Check} (h : check ≠ nativeBuild) (exempt : List String)
    (f : SourceFile) : (check.run exempt true f).file = f := by
  cases check with
  | nativeBuild => exact absurd rfl h
  | _ => rfl

/-- A run makes a fix for each time that its check is asked for. -/
theorem file_runAll (exempt : List String) (checks : List Check) (f : SourceFile) :
    (runAll exempt true f checks).file = Native.fix^[checks.count nativeBuild] f := by
  induction checks generalizing f with
  | nil => rfl
  | cons check checks ih =>
    rw [runAll, ih]
    by_cases h : check = nativeBuild
    · subst h
      rw [List.count_cons_self, Function.iterate_succ_apply]
      rfl
    · rw [List.count_cons_of_ne h, file_run_of_ne h]

/-- **What checks in order find** is what each finds in the file that it sees. -/
theorem findings_runAll (exempt : List String) {checks : List Check} (h : InOrder checks)
    (f : SourceFile) : (runAll exempt true f checks).findings = checks.flatMap fun check =>
      (check.run exempt true (check.seen (checks.count nativeBuild) f)).findings := by
  induction checks generalizing f with
  | nil => rfl
  | cons check checks ih =>
    obtain ⟨hfirst, hrest⟩ := List.pairwise_cons.mp h
    rw [runAll, List.flatMap_cons, ih hrest]
    by_cases hfix : check = nativeBuild
    · subst hfix
      -- nothing is reported where the fix is made, and whatever follows sees what it made
      refine congrArg ([] ++ ·) (List.flatMap_congr fun later hlater => ?_)
      have hplace : ¬ later.place < nativeBuild.place := Nat.not_lt.mpr (hfirst later hlater)
      rw [seen, seen, if_neg hplace, if_neg hplace, List.count_cons_self,
        Function.iterate_succ_apply]
      rfl
    · rw [file_run_of_ne hfix, List.count_cons_of_ne hfix]
      by_cases hplace : check.place < nativeBuild.place
      · rw [seen, if_pos hplace]
      · -- a check behind the fix is followed by no fix
        have hbehind : nativeBuild.place < check.place := by
          cases check with
          | nativeBuild => exact absurd rfl hfix
          | constantGlob => exact absurd (by decide) hplace
          | duplicatedName => exact absurd (by decide) hplace
          | _ => decide
        have hnone : checks.count nativeBuild = 0 := by
          refine List.count_eq_zero.mpr fun hmem => ?_
          have hle := hfirst nativeBuild hmem
          omega
        rw [hnone, seen_zero]

/-! ### A second run -/

/-- There is something that a check finds in a second run for the first time, when each run makes
the given number of fixes. -/
def Emerges (exempt : List String) (f : SourceFile) (fixes : ℕ) : Check → Prop
  -- constant patterns are looked for before the fixes, positional arguments after them
  | constantGlob => ConstantGlob.Emerges f 0 fixes
  | positionalArgs => PositionalArgs.Emerges exempt f fixes (2 * fixes)
  | _ => False

/-- What a check finds in the second run, compared with the first. -/
theorem findings_seen_again {f : SourceFile} (h : ∀ n ∈ f.statements, n.IsStatement AnyName)
    (hbuild : f.dialect = .build) (exempt : List String) (fixes : ℕ) (check : Check) :
    (check.run exempt true (check.seen fixes f)).findings.length ≤
        (check.run exempt true (check.seen fixes (Native.fix^[fixes] f))).findings.length ∧
      ((check.run exempt true (check.seen fixes (Native.fix^[fixes] f))).findings =
          (check.run exempt true (check.seen fixes f)).findings ↔
        ¬ check.Emerges exempt f fixes) := by
  have htwice : Native.fix^[fixes] (Native.fix^[fixes] f) = Native.fix^[2 * fixes] f := by
    rw [← Function.iterate_add_apply, Nat.two_mul]
  have hle : fixes ≤ 2 * fixes := by omega
  have hsame : ∀ {first second : List Finding}, second = first →
      first.length ≤ second.length ∧ (second = first ↔ ¬ False) := by
    rintro first _ rfl
    exact ⟨le_rfl, iff_of_true rfl id⟩
  cases check with
  | constantGlob =>
    exact ⟨ConstantGlob.length_findings_le hbuild (Nat.zero_le fixes),
      ConstantGlob.findings_eq_iff hbuild (Nat.zero_le fixes)⟩
  | duplicatedName => exact hsame (DuplicatedName.findings_iterate_fix h fixes)
  | nativeBuild => exact hsame rfl
  | nativePackage => exact hsame (Native.packageFindings_iterate_fix fixes _)
  | positionalArgs =>
    have hlength := PositionalArgs.length_findings_le hbuild hle exempt
    have hiff := PositionalArgs.findings_eq_iff hbuild hle exempt
    rw [← htwice] at hlength hiff
    exact ⟨hlength, hiff⟩
  | starArgs => exact hsame (StarArgs.findings_iterate_fix fixes _)

/-- **A second run of checks in order finds what the first one did** unless something emerges. -/
theorem findings_runAll_again_iff {f : SourceFile}
    (h : ∀ n ∈ f.statements, n.IsStatement AnyName) (exempt : List String) {checks : List Check}
    (horder : InOrder checks) :
    (runAll exempt true (runAll exempt true f checks).file checks).findings =
        (runAll exempt true f checks).findings ↔
      (f.dialect = .build → ∀ check ∈ checks,
        ¬ check.Emerges exempt f (checks.count nativeBuild)) := by
  by_cases hbuild : f.dialect = .build
  · rw [file_runAll, findings_runAll exempt horder, findings_runAll exempt horder, eq_comm,
      flatMap_eq_iff_of_length_le fun check _ =>
        (findings_seen_again h hbuild exempt (checks.count nativeBuild) check).1]
    simp only [hbuild, true_imp_iff]
    refine forall₂_congr fun check _ => ?_
    exact eq_comm.trans (findings_seen_again h hbuild exempt (checks.count nativeBuild) check).2
  · -- in any other dialect there is nothing to fix
    have hfile : (runAll exempt true f checks).file = f := by
      rw [file_runAll]
      exact Function.iterate_fixed (Native.fix_of_dialect_ne hbuild) _
    rw [hfile]
    exact iff_of_true rfl fun h => absurd h hbuild

end Check

/-- **A second run with fixes reports what the first one did exactly if nothing comes to light.** -/
theorem SourceFile.lint_again_iff {source path : String} {dialect : Option Dialect} {f : SourceFile}
    (hparse : SourceFile.parse source path dialect = .ok f) {categories : List String}
    {checks : List Check} (hknown : Check.ofNames categories = .ok checks)
    (horder : Check.InOrder checks) (exempt : List String) :
    ∃ first second, f.lint categories true exempt = .ok first ∧
      first.file.lint categories true exempt = .ok second ∧
      (second.findings = first.findings ↔ (f.dialect = .build → ∀ check ∈ checks,
        ¬ check.Emerges exempt f (checks.count .nativeBuild))) := by
  have hlint : ∀ g : SourceFile,
      g.lint categories true exempt = .ok (Check.runAll exempt true g checks) := by
    intro g
    rw [lint, hknown]
    rfl
  have hstatements : ∀ n ∈ f.statements, n.IsStatement AnyName := by
    intro n hn
    exact (isStatement_of_parse hparse n hn).restrict fun _ _ => trivial
  exact ⟨_, _, hlint f, hlint _, Check.findings_runAll_again_iff hstatements exempt horder⟩

/-- A constant pattern of a glob of the native module is reported by the second run only. -/
theorem SourceFile.lint_again_native_glob :
    ∃ f first second, SourceFile.parse "native.glob([\"x\"])\n" "BUILD" none = .ok f ∧
      f.lint ["constant-glob", "native-build"] true = .ok first ∧
      first.file.lint ["constant-glob", "native-build"] true = .ok second ∧
      second.findings ≠ first.findings := by
  let glob : Node :=
    .call ⟨⟨1, 1⟩, ⟨1, 19⟩⟩ (.member ⟨⟨1, 1⟩, ⟨1, 12⟩⟩ (.ident ⟨⟨1, 1⟩, ⟨1, 7⟩⟩ "native") "glob")
      [.list ⟨⟨1, 13⟩, ⟨1, 18⟩⟩ [.string ⟨⟨1, 14⟩, ⟨1, 17⟩⟩ "x"]]
  let f : SourceFile := ⟨⟨⟨1, 1⟩, ⟨2, 1⟩⟩, "BUILD", .build, [glob]⟩
  have hparse : SourceFile.parse "native.glob([\"x\"])\n" "BUILD" none = .ok f := by cbv
  have hknown : Check.ofNames ["constant-glob", "native-build"] =
      .ok [.constantGlob, .nativeBuild] := by decide
  have horder : Check.InOrder [.constantGlob, .nativeBuild] := by
    unfold Check.InOrder
    decide
  have hglob : Check.constantGlob.Emerges PositionalArgs.exempt f 1 :=
    ⟨glob, List.mem_cons_of_mem _ List.mem_cons_self, 1, by decide, by decide, by decide,
      by decide⟩
  obtain ⟨first, second, hfirst, hsecond, hiff⟩ :=
    lint_again_iff hparse hknown horder PositionalArgs.exempt
  refine ⟨f, first, second, hparse, hfirst, hsecond, fun hsame => ?_⟩
  exact hiff.mp hsame rfl .constantGlob List.mem_cons_self hglob

end StarlarkLint
