import Mathlib
import StarlarkLint.Proofs.Check.Findings
import StarlarkLint.Proofs.Check.Session
import StarlarkLint.Proofs.Layout.File

/-!
# What the fix leaves to the other checks

Whatever is asked for, and in whatever order, the check for members of the native module does not
take anything away from the other checks.  Those that look for names of declarations, for calls of
the package function and for arguments behind stars find what they found in the file as it was read.
Those that look for calls of names find this too, and perhaps more, since there are more such calls
behind a fix.

## Main definitions

* `Check.Keeps` — how the findings of a check compare with those it had at first.

## Main results

* `Check.keeps_iterate_fix` — any number of fixes takes nothing away from a check.
* `SourceFile.answers_keep` — in any sequence of requests nothing is taken away from a check.
-/

namespace StarlarkLint

open Node

/-- More comes to light with more fixes, and what did so before stays in its place. -/
theorem Native.seenAt_sublist {α : Type} (p : String → Bool) (v : Node → List α) {a b : ℕ}
    (hab : a ≤ b) (n : Node) : (seenAt p v a n).Sublist (seenAt p v b n) := by
  unfold seenAt
  by_cases ha : callsWithin p a n = true
  · rw [if_pos ha, if_pos (callsWithin_mono hab ha)]
  · rw [if_neg ha]
    exact List.nil_sublist _

theorem ConstantGlob.findings_sublist_iterate_fix (f : SourceFile) (k : ℕ) :
    (findings f).Sublist (findings (Native.fix^[k] f)) := by
  by_cases h : f.dialect = .build
  · have hfirst := findings_iterate_fix h 0
    rw [Function.iterate_zero, id] at hfirst
    rw [hfirst, findings_iterate_fix h]
    exact List.Sublist.flatMap_right _ fun n _ => Native.seenAt_sublist _ _ (Nat.zero_le k) n
  · rw [Function.iterate_fixed (Native.fix_of_dialect_ne h)]

theorem PositionalArgs.findings_sublist_iterate_fix (exempt : List String) (f : SourceFile)
    (k : ℕ) : (findings exempt f).Sublist (findings exempt (Native.fix^[k] f)) := by
  by_cases h : f.dialect = .build
  · rw [findings_eq, findings_iterate_fix h]
    exact List.Sublist.flatMap_right _ fun n _ => Native.seenAt_sublist _ _ (Nat.zero_le k) n
  · rw [Function.iterate_fixed (Native.fix_of_dialect_ne h)]

namespace Check

/-- How what a check finds compares with what it found at first.  Nothing is said here of the check
for members of the native module, which does not find again what it has fixed. -/
def Keeps (first found : List Finding) : Check → Prop
  | duplicatedName | nativePackage | starArgs => found = first
  | constantGlob | positionalArgs => first.Sublist found
  | nativeBuild => True

/-- **Any number of fixes takes nothing away from a check.** -/
theorem keeps_iterate_fix {f : SourceFile} (h : ∀ n ∈ f.statements, n.IsStatement AnyName)
    (exempt : List String) (fix : Bool) (k : ℕ) (check : Check) :
    check.Keeps (check.run exempt fix f).findings
      (check.run exempt fix (Native.fix^[k] f)).findings := by
  cases check with
  | constantGlob => exact ConstantGlob.findings_sublist_iterate_fix f k
  | duplicatedName => exact DuplicatedName.findings_iterate_fix h k
  | nativeBuild => trivial
  | nativePackage => exact Native.packageFindings_iterate_fix k f
  | positionalArgs => exact PositionalArgs.findings_sublist_iterate_fix exempt f k
  | starArgs => exact StarArgs.findings_iterate_fix k f

end Check

/-- The answers to requests that are made of a file after some fixes. -/
theorem Request.forall₂_keeps_answers {f : SourceFile}
    (h : ∀ n ∈ f.statements, n.IsStatement AnyName) (rs : List Request) (k : ℕ) :
    List.Forall₂ (fun r found => r.check.Keeps (r.run f).findings found) rs
      (answers (Native.fix^[k] f) rs) := by
  induction rs generalizing k with
  | nil => exact .nil
  | cons r rs ih =>
    obtain ⟨j, hj⟩ := r.exists_iterate_fix k f
    rw [answers, hj]
    exact .cons (Check.keeps_iterate_fix h r.exempt r.fix k r.check) (ih j)

/-- **In any sequence of requests nothing is taken away from a check**: what each finds compares as
said with what it would have found in the file as it was read. -/
theorem SourceFile.answers_keep {source path : String} {dialect : Option Dialect} {f : SourceFile}
    (hparse : SourceFile.parse source path dialect = .ok f) (rs : List Request) :
    List.Forall₂ (fun r found => r.check.Keeps (r.run f).findings found) rs
      (Request.answers f rs) := by
  have hstatements : ∀ n ∈ f.statements, n.IsStatement AnyName := by
    intro n hn
    exact (isStatement_of_parse hparse n hn).restrict fun _ _ => trivial
  exact Request.forall₂_keeps_answers hstatements rs 0

/-- Behind a fix the glob of the native module comes to light, and the name that is given twice and
the argument behind a star are still found. -/
theorem SourceFile.answers_keep_native_glob :
    let requests : List Request := [⟨.constantGlob, false, []⟩, ⟨.nativeBuild, true, []⟩,
      ⟨.constantGlob, false, []⟩, ⟨.duplicatedName, false, []⟩, ⟨.starArgs, false, []⟩]
    ∃ f, SourceFile.parse "x(name = \"a\")\nnative.glob([\"x\"], *y, name = \"a\")\n" "BUILD" none =
        .ok f ∧
      (Request.answers f requests).map List.length = [0, 0, 1, 1, 1] ∧
      List.Forall₂ (fun r found => r.check.Keeps (r.run f).findings found) requests
        (Request.answers f requests) := by
  intro requests
  let rule : Node :=
    .call ⟨⟨1, 1⟩, ⟨1, 14⟩⟩ (.ident ⟨⟨1, 1⟩, ⟨1, 2⟩⟩ "x")
      [.assign ⟨⟨1, 3⟩, ⟨1, 13⟩⟩ (.ident ⟨⟨1, 3⟩, ⟨1, 7⟩⟩ "name") "="
        (.string ⟨⟨1, 10⟩, ⟨1, 13⟩⟩ "a")]
  let glob : Node :=
    .call ⟨⟨2, 1⟩, ⟨2, 35⟩⟩ (.member ⟨⟨2, 1⟩, ⟨2, 12⟩⟩ (.ident ⟨⟨2, 1⟩, ⟨2, 7⟩⟩ "native") "glob")
      [.list ⟨⟨2, 13⟩, ⟨2, 18⟩⟩ [.string ⟨⟨2, 14⟩, ⟨2, 17⟩⟩ "x"],
        .unary ⟨⟨2, 20⟩, ⟨2, 22⟩⟩ "*" (.ident ⟨⟨2, 21⟩, ⟨2, 22⟩⟩ "y"),
        .assign ⟨⟨2, 24⟩, ⟨2, 34⟩⟩ (.ident ⟨⟨2, 24⟩, ⟨2, 28⟩⟩ "name") "="
          (.string ⟨⟨2, 31⟩, ⟨2, 34⟩⟩ "a")]
  let f : SourceFile := ⟨⟨⟨1, 1⟩, ⟨3, 1⟩⟩, "BUILD", .build, [rule, glob]⟩
  have hparse : SourceFile.parse "x(name = \"a\")\nnative.glob([\"x\"], *y, name = \"a\")\n"
      "BUILD" none = .ok f := by cbv
  exact ⟨f, hparse, by decide, answers_keep hparse requests⟩

end StarlarkLint
