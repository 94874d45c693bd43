import StarlarkLint.Check.Arguments
import StarlarkLint.Check.Glob
import StarlarkLint.Check.Name
import StarlarkLint.Check.Native

/-!
# Running checks

Checks run one after another on a file and answer with their findings.  Asked to fix, the check for
members of the native module edits the file instead of reporting them, and the checks after it
see the file it left.

## Main definitions

* `Check.run` — one check on a file.
* `Check.runAll` — checks in a row.
* `SourceFile.lint` — the checks of a list of categories.
-/

namespace StarlarkLint

/-- What checks leave behind. -/
structure Checked where
  /-- The file, with the fixes made. -/
  file : SourceFile
  /-- The findings, in order. -/
  findings : List Finding
  deriving Repr

/-- Run a check on a file.  The exempt functions may take positional arguments. -/
def Check.run (exempt : List String) (fix : Bool) (f : SourceFile) : Check → Checked
  | constantGlob => ⟨f, ConstantGlob.findings f⟩
  | duplicatedName => ⟨f, DuplicatedName.findings f⟩
  | nativeBuild => if fix then ⟨Native.fix f, []⟩ else ⟨f, Native.findings f⟩
  | nativePackage => ⟨f, Native.packageFindings f⟩
  | positionalArgs => ⟨f, PositionalArgs.findings exempt f⟩
  | starArgs => ⟨f, StarArgs.findings f⟩

/-- Run checks in a row. -/
def Check.runAll (exempt : List String) (fix : Bool) (f : SourceFile) : List Check → Checked
  | [] => ⟨f, []⟩
  | check :: checks =>
    let first := check.run exempt fix f
    -- a fix is there for the checks that follow
    let rest := runAll exempt fix first.file checks
    ⟨rest.file, first.findings ++ rest.findings⟩

/-- Run the checks of a list of categories.  If one of the categories is unknown, none runs. -/
def SourceFile.lint (f : SourceFile) (categories : List String) (fix : Bool := false)
    (exempt : List String := PositionalArgs.exempt) : Except UnknownCategories Checked := do
  let checks ← Check.ofNames categories
  .ok (Check.runAll exempt fix f checks)

end StarlarkLint
