import StarlarkLint.Disk
import StarlarkLint.Log
import StarlarkLint.Text.Encoding

/-!
# Outcomes of runs

## Main definitions

* `Outcome`, `Outcome.errors` — what a run prints, writes, and ends with.
-/

namespace StarlarkLint

/-- What a run comes to. -/
structure Outcome where
  /-- The exit status. -/
  status : Nat
  /-- What was printed. -/
  output : String := ""
  /-- What was logged, as far as it was written. -/
  log : List LogEntry := []
  /-- What was complained about. -/
  complaints : String := ""
  /-- The files that were written, in order, with their texts. -/
  written : List (Path × String) := []
  deriving DecidableEq, Repr, Inhabited

/-- The text on the channel for errors: the log, and behind it the complaints, since these come only
when there is nothing left to do. -/
def Outcome.errors (clock : Nat → String) (outcome : Outcome) : String :=
  Log.text clock outcome.log ++ outcome.complaints

/-- The disk after files were written. -/
def Disk.afterWriting (disk : Disk) (files : List (Path × String)) : Disk :=
  files.foldl (fun disk (path, text) => disk.write path (Text.encode text)) disk

end StarlarkLint
