import StarlarkLint.Check.Log
import StarlarkLint.Grammar.Parser
import StarlarkLint.Layout.Render
import StarlarkLint.Settings
import StarlarkLint.Text.Encoding

/-!
# Reviewing files

A review reads a file, runs the checks that the settings ask for, and, asked to fix, lays the file
out anew if a fix has changed it.  A file that cannot be read or parsed has a reason instead of
findings.

## Main definitions

* `SourceFile.read` — a file on a disk as a syntax tree.
* `Review`, `Disk.review` — what a review comes to.
* `Disk.reviewLog` — what it logs.
-/

namespace StarlarkLint

/-- Why a file was not reviewed. -/
inductive ReadError
  /-- It cannot be read. -/
  | disk (reason : DiskError)
  /-- It cannot be parsed. -/
  | syntactic (reason : SyntaxError)
  deriving DecidableEq, Repr, Inhabited

/-- The reason in words. -/
def ReadError.message : ReadError → String
  | disk reason => reason.message
  | syntactic reason => reason.message

/-- The text of a source file. -/
def Disk.readSource (disk : Disk) (path : Path) : Except DiskError String :=
  (disk.read path).map Text.decodeSource

/-- A file on a disk as a syntax tree.  Without a dialect, the path tells it. -/
def SourceFile.read (disk : Disk) (path : Path) (dialect : Option Dialect := none) :
    Except ReadError SourceFile := do
  let source ← (disk.readSource path).mapError .disk
  (SourceFile.parse source path.text dialect).mapError .syntactic

/-- What a review comes to. -/
structure Review where
  /-- The file. -/
  path : Path
  /-- What the checks met. -/
  findings : List Finding := []
  /-- The text of the fixed file, if a fix has changed it. -/
  fixed : Option String := none
  /-- Why the file was not reviewed. -/
  error : Option ReadError := none
  deriving Repr, Inhabited

/-- The layout of the second file, if it is not that of the first. -/
def changedLayout (before after : SourceFile) : Option String :=
  match before.render, after.render with
  | .ok old, .ok new => if new = old then none else some new
  | _, _ => none

/-- Review a file. -/
def Disk.review (disk : Disk) (settings : Settings) (fix : Bool) (path : Path) : Review :=
  match SourceFile.read disk path (some (settings.dialect.getD (.ofPath path))) with
  | .error e => { path, error := some e }
  | .ok f =>
    let checked := Check.runAll settings.exempt fix f settings.checks
    { path
      findings := checked.findings
      fixed := if fix then changedLayout f checked.file else none }

/-- What the review of a file logs: that it passes the file over, or how much there is in the file
and what its checks log. -/
def Disk.reviewLog (disk : Disk) (settings : Settings) (fix : Bool) (path : Path) : List LogEntry :=
  match SourceFile.read disk path (some (settings.dialect.getD (.ofPath path))) with
  | .error e => [{ level := .warning, message := "Skipping " ++ path.text ++ ": " ++ e.message }]
  | .ok f =>
    let length := toString f.statements.length
    { level := .debug, message := "Parsed " ++ path.text ++ ": " ++ length ++ " statements" } ::
      Check.logAll settings.exempt fix f settings.checks

end StarlarkLint
