import StarlarkLint.CommandLine.Format
import StarlarkLint.CommandLine.Lint
import StarlarkLint.Yaml.Load

/-!
# The program

The part of the file system that a run can see is read beforehand; the run itself is a function on
it, whose outcome is then printed and written.  The first word `--format` calls the formatter, any
other command line the linter.  Settings are read from YAML files.
-/

namespace StarlarkLint.Program

/-- The names that lead to a place from the root. -/
def placeOf (text : String) : List String := (Path.parse text).components

/-- Add to a disk what is found at a place, and everything below it. -/
partial def load (disk : Disk) (place : List String) : IO Disk := do
  let found ← IO.FS.realPath ("/" ++ "/".intercalate place)
  if !(← found.pathExists) then return disk
  if ← found.isDir then
    let mut disk := disk.addDirectory place
    for entry in ← found.readDir do
      disk ← load disk (place ++ [entry.fileName])
    return disk
  else return disk.addFile place (← IO.FS.readBinFile found)

/-- Add to a disk what is found at a path, with the directories on the way. -/
def loadPath (disk : Disk) (path : Path) : IO Disk := do
  let names := (if path.anchor = .here then disk.working else []) ++ path.components
  let mut disk := disk
  let mut place : List String := []
  for name in names.dropLast do
    place := if name = ".." then place.dropLast else place ++ [name]
    let found ← IO.FS.realPath ("/" ++ "/".intercalate place)
    if ← found.isDir then
      disk := disk.addDirectory place
    else if ← found.pathExists then
      return disk.addFile place (← IO.FS.readBinFile found)
    else return disk
  let last := names.getLast?.getD ""
  load disk (if last = ".." then place.dropLast else if last = "" then place else place ++ [last])

/-- The part of the file system that can be seen from some paths. -/
def snapshot (paths : List Path) : IO Disk := do
  let working := placeOf (← IO.currentDir).toString
  let mut disk := (Disk.empty working).addDirectory working
  for path in paths do
    disk ← loadPath disk path
  return disk

/-- Print and write what a run comes to. -/
def finish (outcome : Outcome) : IO UInt32 := do
  for (path, text) in outcome.written do
    IO.FS.writeFile path.text text
  IO.print outcome.output
  -- the run is over when its log is written, so that the times of its entries are left open
  IO.eprint (outcome.errors fun _ => "--:--:--")
  return outcome.status.toUInt32

/-- End a command line that leads to no run. -/
def giveUp (help : String) : Ending → IO UInt32
  | .version => do
    IO.print Lint.version
    return 0
  | .help => do
    IO.println help
    return 0
  | .misuse => do
    IO.eprintln help
    return 2

/-- How the linter is called. -/
def lintHelp : String :=
  "usage: buildlint [--version] [-r] [--fix] [-i] [--json] [--type TYPE]\n"
    ++ "                 [--warnings NAMES] [--config FILE] [-v] paths [paths ...]"

/-- How the formatter is called. -/
def formatHelp : String := "usage: buildlint --format [-i] [--check] file"

/-- Run the formatter. -/
def format (words : List String) : IO UInt32 := do
  match Format.Options.parse words with
  | .error ending => giveUp formatHelp ending
  | .ok options =>
    match Format.run (← snapshot [options.path]) options with
    | .ok outcome => finish outcome
    | .error e => finish { status := 1, complaints := e.message ++ "\n" }

/-- Run the linter. -/
def lint (words : List String) : IO UInt32 := do
  match Lint.Options.parse words with
  | .error ending => giveUp lintHelp ending
  | .ok options =>
    let home := Path.parse ((← IO.getEnv "HOME").getD ".")
    let search := [Path.parse Settings.fileName, home.append [Settings.fileName]]
    let environment : Environment :=
      { warnings := ← IO.getEnv "BUILDLINT_WARNINGS"
        disabled := ← IO.getEnv "BUILDLINT_DISABLED" }
    let disk ← snapshot (search ++ (options.config.bind id).toList ++ options.paths)
    match (Lint.run Yaml.loader disk search environment options).outcome options with
    | .ok outcome => finish outcome
    | .error fault => do
      IO.eprintln (reprStr fault)
      return 1

end StarlarkLint.Program

/-- Run the program. -/
def main (words : List String) : IO UInt32 :=
  match words with
  | "--format" :: rest => StarlarkLint.Program.format rest
  | _ => StarlarkLint.Program.lint words
