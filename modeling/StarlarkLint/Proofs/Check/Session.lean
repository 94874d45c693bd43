import Mathlib.Logic.Function.Iterate
import StarlarkLint.Proofs.Check.Native

/-!
# Checks in any order

A file can be checked as often as one likes, by any checks in any order, with fixes or without, and
each check sees the file that the ones before it left.  Only one of the checks ever changes a file,
and it always makes the same change.  So whatever is asked for, the file is in the end one that was
fixed some number of times.

## Main definitions

* `Request`, `Request.run` — a check that is asked for, and what it comes to.
* `Request.answers`, `Request.fileAfter` — what a sequence of requests finds, and the file it
  leaves.

## Main results

* `Request.exists_iterate_fix` — a request leaves a file that was fixed some number of times.
* `Request.fileAfter_preserves` — what the fix preserves is preserved by every sequence of requests.
-/

namespace StarlarkLint

/-- A check that is asked for. -/
structure Request where
  /-- The check. -/
  check : Check
  /-- Whether to fix what can be fixed. -/
  fix : Bool
  /-- The functions that may take positional arguments. -/
  exempt : List String := PositionalArgs.exempt
  deriving DecidableEq, Repr

namespace Request

/-- Run the check that is asked for. -/
def run (f : SourceFile) (r : Request) : Checked := r.check.run r.exempt r.fix f

/-- The findings of each request, when each is made on the file that the one before it left. -/
def answers : SourceFile → List Request → List (List Finding)
  | _, [] => []
  | f, r :: rs => (r.run f).findings :: answers (r.run f).file rs

/-- The file that a sequence of requests leaves. -/
def fileAfter : SourceFile → List Request → SourceFile
  | f, [] => f
  | f, r :: rs => fileAfter (r.run f).file rs

/-- **A request leaves a file that was fixed some number of times.** -/
theorem exists_iterate_fix (r : Request) (k : Nat) (f : SourceFile) :
    ∃ j, (r.run (Native.fix^[k] f)).file = Native.fix^[j] f := by
  have hfix : ∀ g, (∃ j, g = Native.fix^[j] f) → ∃ j, Native.fix g = Native.fix^[j] f := by
    rintro _ ⟨j, rfl⟩
    exact ⟨j + 1, (Function.iterate_succ_apply' Native.fix j f).symm⟩
  exact Check.run_preserves hfix r.exempt r.fix ⟨k, rfl⟩ r.check

/-- **What the fix preserves is preserved by every sequence of requests.** -/
theorem fileAfter_preserves {P : SourceFile → Prop} (hfix : ∀ f, P f → P (Native.fix f))
    (rs : List Request) {f : SourceFile} (h : P f) : P (fileAfter f rs) := by
  induction rs generalizing f with
  | nil => exact h
  | cons r rs ih =>
    apply ih
    exact Check.run_preserves hfix r.exempt r.fix h r.check

end Request

end StarlarkLint
