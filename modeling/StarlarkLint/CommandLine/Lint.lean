import StarlarkLint.CommandLine.Arguments
import StarlarkLint.CommandLine.Outcome
import StarlarkLint.Discovery
import StarlarkLint.Report

/-!
# The linter's command line

Files are reviewed in the order in which they are named or found.  A path that does not exist ends
the run there and then; what was printed and written before stands.  The exit status is zero if
nothing was found, one if something was, and two if the settings or some file could not be used.
While files are reviewed the run logs what it does; about files that could not be used it complains
at its end.  What is shown of a command line that leads to no run is no part of an outcome.

## Main definitions

* `Lint.usage`, `Lint.Options` — the command line, and what it asks for.
* `Lint.reviewAll` — the reviews of files in turn.
* `Lint.run`, `Lint.Run.outcome` — a run, and what it comes to.
-/

namespace StarlarkLint.Lint

/-- What is printed when the version is asked for. -/
def version : String := "buildlint 0.1.0\n"

/-- What the command line may hold. -/
def usage : Usage where
  switches :=
    [{ names := ["--help", "-h"], takes := .ending .help },
     { names := ["--version"], takes := .ending .version },
     { names := ["--recursive", "-r"] },
     { names := ["--fix"] },
     { names := ["--inplace", "-i"] },
     { names := ["--json"] },
     { names := ["--type"], takes := .value (Dialect.all.map Dialect.name) },
     { names := ["--warnings"], takes := .value [] },
     { names := ["--config"], takes := .value [] },
     { names := ["--verbose", "-v"] }]
  manyOperands := true

/-- What a run is asked to do. -/
structure Options where
  /-- The files and directories to review. -/
  paths : List Path
  /-- Whether directories are searched at any depth. -/
  deep : Bool := false
  /-- Whether to fix what can be fixed. -/
  fix : Bool := false
  /-- Whether fixed files are written back instead of printed. -/
  inPlace : Bool := false
  /-- Whether the report is JSON. -/
  json : Bool := false
  /-- Whether the whole log is written. -/
  verbose : Bool := false
  /-- The dialect of every file, if one is stated; it may be stated without its name. -/
  dialect : Option (Option String) := none
  /-- The categories to check, if they are stated; it may be that none are. -/
  warnings : Option (Option String) := none
  /-- The file that settings are read from, if one is asked for; it may be left out which. -/
  config : Option (Option Path) := none
  deriving DecidableEq, Repr, Inhabited

namespace Options

/-- What a command line asks for. -/
def ofArguments (a : Arguments) : Options where
  paths := (a.operands.getD []).map Path.parse
  deep := a.has "--recursive"
  fix := a.has "--fix"
  inPlace := a.has "--inplace"
  json := a.has "--json"
  verbose := a.has "--verbose"
  dialect := a.last? "--type"
  warnings := a.last? "--warnings"
  config := (a.last? "--config").map fun file => file.map Path.parse

/-- What a command line asks for, if it leads to a run. -/
def parse (words : List String) : Except Ending Options := (usage.parse words).map ofArguments

/-- The value that is stated for a setting: an empty list if nothing is. -/
def stated : Option String → Value
  | some text => .text text
  | none => .list []

/-- The settings that are stated on the command line. -/
def overrides (o : Options) : List (String × Value) :=
  (o.warnings.map fun w => (SettingKey.warnings.name, stated w)).toList
    ++ (o.dialect.map fun d => (SettingKey.dialect.name, stated d)).toList

end Options

/-- What has been done so far. -/
structure Progress where
  /-- The reviews, in order. -/
  reviews : List Review := []
  /-- What was printed. -/
  output : String := ""
  /-- What was logged, written or not. -/
  log : List LogEntry := []
  /-- The files that were written, in order. -/
  written : List (Path × String) := []
  deriving Repr, Inhabited

/-- What becomes of a review: a fixed file is written back, or printed unless the report is JSON. -/
def Progress.add (options : Options) (review : Review) (log : List LogEntry) (done : Progress) :
    Progress :=
  let done := { done with reviews := done.reviews ++ [review], log := done.log ++ log }
  match review.fixed with
  | none => done
  | some text =>
    if options.inPlace then
      { done with
        log := done.log ++ [{ level := .info, message := "Fixed: " ++ review.path.text }]
        written := done.written ++ [(review.path, text)] }
    else if options.json then done
    else { done with output := done.output ++ text }

/-- How a run ended. -/
inductive Run
  /-- The program failed for want of settings. -/
  | failed (fault : SettingsFault)
  /-- There were no settings. -/
  | refused (reason : SettingsError) (log : List LogEntry)
  /-- A path did not exist. -/
  | missing (path : Path) (done : Progress)
  /-- Every file was reviewed. -/
  | finished (done : Progress)
  deriving Inhabited

/-- Review files in turn, each on the disk that the ones before it left. -/
def reviewAll (options : Options) (settings : Settings) (disk : Disk) (done : Progress) :
    List Path → Run
  | [] => .finished done
  | path :: paths =>
    -- a path that is named twice is seen as its first review left it
    let now := disk.afterWriting done.written
    if now.exists? path then
      let review := now.review settings options.fix path
      let log := now.reviewLog settings options.fix path
      reviewAll options settings disk (done.add options review log) paths
    else .missing path done

section

variable (loader : Loader)

/-- The settings of a run. -/
def settings (disk : Disk) (search : List Path) (environment : Environment) (options : Options) :
    Except SettingsFailure Settings :=
  match options.config with
  | none => Settings.load loader disk search environment none options.overrides
  | some (some path) => Settings.load loader disk search environment (some path) options.overrides
  | some none => .error (.failed .unnamed)

/-- What a run logs about its settings. -/
def settingsLog (disk : Disk) (search : List Path) (options : Options) : List LogEntry :=
  Settings.log loader disk search (options.config.bind id)

/-- Run the linter. -/
def run (disk : Disk) (search : List Path) (environment : Environment) (options : Options) : Run :=
  match settings loader disk search environment options with
  | .error (.failed fault) => .failed fault
  | .error (.refused reason) => .refused reason (settingsLog loader disk search options)
  | .ok settings =>
    reviewAll options settings disk { log := settingsLog loader disk search options }
      (disk.discover options.paths options.deep)

end

/-- The exit status of a run that reviewed every file. -/
def status (reviews : List Review) : Nat :=
  if reviews.any (·.error.isSome) then 2
  else if reviews.any (·.findings ≠ []) then 1
  else 0

/-- What is complained about when a run is given up. -/
def complaint (text : String) : String := "Error: " ++ text ++ "\n"

/-- The files that a run wrote, in order. -/
def Run.written : Run → List (Path × String)
  | failed _ | refused .. => []
  | missing _ done | finished done => done.written

/-- The part of a log that is written. -/
def Options.shown (options : Options) (log : List LogEntry) : List LogEntry :=
  log.filter (·.isWritten options.verbose)

/-- What a run comes to, unless the program failed. -/
def Run.outcome (options : Options) (run : Run) : Except SettingsFault Outcome :=
  match run with
  | failed fault => .error fault
  | refused reason log =>
    .ok { status := 2, log := options.shown log, complaints := complaint reason.message }
  | missing path done =>
    .ok
      { status := 2
        output := done.output
        log := options.shown done.log
        complaints := complaint (path.text ++ " not found")
        written := run.written }
  | finished done =>
    .ok
      { status := status done.reviews
        output := done.output ++
          if options.json then Report.json done.reviews else Report.findings done.reviews
        log := options.shown done.log
        complaints := if options.json then "" else Report.complaints done.reviews
        written := run.written }

end StarlarkLint.Lint
