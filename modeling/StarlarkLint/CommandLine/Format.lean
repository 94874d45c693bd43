import StarlarkLint.CommandLine.Arguments
import StarlarkLint.CommandLine.Outcome
import StarlarkLint.Review

/-!
# The formatter's command line

One file is laid out anew; the layout is printed, written back, or only compared with the file.

## Main definitions

* `Format.usage`, `Format.Options` — the command line, and what it asks for.
* `Format.layout` — the layout of a file on a disk.
* `Format.run` — a run.
-/

namespace StarlarkLint.Format

/-- What the command line may hold. -/
def usage : Usage where
  switches :=
    [{ names := ["--help", "-h"], takes := .ending .help },
     { names := ["--inplace", "-i"] },
     { names := ["--check"] }]
  manyOperands := false

/-- What a run is asked to do. -/
structure Options where
  /-- The file. -/
  path : Path
  /-- Whether the layout is written back. -/
  inPlace : Bool := false
  /-- Whether the layout is only compared with the file. -/
  check : Bool := false
  deriving DecidableEq, Repr, Inhabited

/-- What a command line asks for, if it leads to a run. -/
def Options.parse (words : List String) : Except Ending Options := do
  let a ← usage.parse words
  .ok
    { path := .parse ((a.operands.getD []).headD "")
      inPlace := a.has "--inplace"
      check := a.has "--check" }

/-- Why a file has no layout. -/
inductive Error
  /-- It cannot be read or parsed. -/
  | unread (reason : ReadError)
  /-- Its tree has no layout. -/
  | layout (reason : LayoutError)
  deriving DecidableEq, Repr, Inhabited

/-- The reason in words. -/
def Error.message : Error → String
  | unread reason => reason.message
  | layout reason => reason.message

/-- The layout of a file on a disk. -/
def layout (disk : Disk) (path : Path) (options : LayoutOptions := {}) : Except Error String := do
  let f ← (SourceFile.read disk path).mapError .unread
  (f.render options).mapError .layout

/-- Run the formatter. -/
def run (disk : Disk) (options : Options) : Except Error Outcome := do
  let text ← layout disk options.path
  if options.check then
    let source ← (disk.readSource options.path).mapError (.unread ∘ .disk)
    .ok { status := if source = text then 0 else 1 }
  else if options.inPlace then
    .ok
      { status := 0, output := "Formatted: " ++ options.path.text ++ "\n"
        written := [(options.path, text)] }
  else .ok { status := 0, output := text }

end StarlarkLint.Format
