import StarlarkLint.Check.Category
import StarlarkLint.Finding
import StarlarkLint.Node.Traversal

/-!
# Constant glob patterns

A glob whose list of patterns holds one without a wildcard matches exactly one file there.  Each
glob is reported once, at its first such pattern.  Files that are neither package descriptions nor
extension files are not checked.

## Main definitions

* `ConstantGlob.pattern?` — the first pattern of a glob that has no wildcard.
* `ConstantGlob.findings` — the findings of a file.
-/

namespace StarlarkLint.ConstantGlob

/-- A string without a wildcard. -/
def constant? : Node → Option (Span × String)
  | .string span value => if '*' ∈ value.toList then none else some (span, value)
  | _ => none

/-- The first pattern of a call that has no wildcard, when its first argument is a list. -/
def pattern? : Node → Option (Span × String)
  | .call _ _ (.list _ patterns :: _) => patterns.findSome? constant?
  | _ => none

/-- What is said about a pattern. -/
def message (pattern : String) : String :=
  "Glob pattern `" ++ pattern ++ "` has no wildcard ('*'). "
    ++ "Constant patterns can be error-prone, move the file outside the glob."

/-- The globs of a file, in order. -/
def globs (f : SourceFile) : List Node := (f.node.walk.map (·.1)).filter (·.isCallOf "glob")

/-- The findings of a file. -/
def findings (f : SourceFile) : List Finding :=
  if f.dialect = .generic then []
  else ((globs f).filterMap pattern?).map fun (span, pattern) =>
    f.finding span Check.constantGlob.name (message pattern)

end StarlarkLint.ConstantGlob
