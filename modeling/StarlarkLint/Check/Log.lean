import StarlarkLint.Check.Run
import StarlarkLint.Log

/-!
# What checks log

Every check logs how much it found.  A check that fixes a file logs each change when it makes it,
and so before that.

## Main definitions

* `Native.changes` — what the fix logs.
* `Check.log`, `Check.logAll` — what a check logs, and checks in a row.
-/

namespace StarlarkLint

/-- What the fix logs: the members that it replaces, in the order in which it comes to them. -/
def Native.changes (f : SourceFile) : List LogEntry :=
  if f.dialect = .build then
    (Node.editAll editor [f.node] f.statements).visits.filterMap fun (node, _) =>
      (global? node).map fun name =>
        let place := toString node.span.start.line ++ ":" ++ toString node.span.start.column
        { level := .debug
          message := f.path ++ ":" ++ place ++ ": rewriting native." ++ name ++ " to " ++ name }
  else []

/-- What a check logs. -/
def Check.log (exempt : List String) (fix : Bool) (f : SourceFile) (check : Check) :
    List LogEntry :=
  let found := (check.run exempt fix f).findings.length
  (if check = .nativeBuild ∧ fix then Native.changes f else []) ++
    [{ level := .debug
       message := f.path ++ ": " ++ check.name ++ " -> " ++ toString found ++ " findings" }]

/-- What checks in a row log. -/
def Check.logAll (exempt : List String) (fix : Bool) (f : SourceFile) : List Check → List LogEntry
  | [] => []
  | check :: checks =>
    check.log exempt fix f ++ logAll exempt fix (check.run exempt fix f).file checks

end StarlarkLint
