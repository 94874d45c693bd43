import StarlarkLint.Node.Basic

/-!
# Findings

A finding says that a check met something doubtful: in which file and where, which check it was, and
why.

## Main definitions

* `Finding`, `Finding.line` — a finding, and the line that reports it.
* `SourceFile.finding` — a finding about a file.
-/

namespace StarlarkLint

/-- A textual change that would settle a finding. -/
structure Replacement where
  /-- The text to replace. -/
  old : String
  /-- The text to put in its place. -/
  new : String
  deriving DecidableEq, Repr, Inhabited

/-- Something doubtful that a check met. -/
structure Finding where
  /-- The path of the file. -/
  file : String
  /-- Where it is. -/
  span : Span
  /-- The name of the check. -/
  category : String
  /-- Why it is doubtful. -/
  message : String
  /-- Whether something can be done about it. -/
  actionable : Bool := true
  /-- A change that would settle it. -/
  replacement : Option Replacement := none
  deriving DecidableEq, Repr, Inhabited

/-- The line that reports a finding. -/
def Finding.line (f : Finding) : String :=
  f.file ++ ":" ++ toString f.span.start.line ++ ":" ++ toString f.span.start.column ++ ": "
    ++ f.category ++ ": " ++ f.message

/-- A finding about a file. -/
def SourceFile.finding (f : SourceFile) (span : Span) (category message : String) : Finding :=
  { file := f.path, span, category, message }

end StarlarkLint
