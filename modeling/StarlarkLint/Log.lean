/-!
# Logs

While a run goes on it logs what it does.  Entries that matter little are written only when asked
for.  An entry that is written is a line of its own, with the time of day in front of it; the times
are no part of a log, and any clock may tell them.

## Main definitions

* `LogLevel`, `LogEntry` — how much an entry matters, and what it says.
* `LogEntry.isWritten` — whether it is written.
* `Log.text` — the entries of a log as they are written.
-/

namespace StarlarkLint

/-- How much an entry matters. -/
inductive LogLevel
  /-- A detail. -/
  | debug
  /-- Something to know. -/
  | info
  /-- Something is amiss. -/
  | warning
  deriving DecidableEq, Repr, Inhabited

/-- The name under which a level is written. -/
def LogLevel.name : LogLevel → String
  | debug => "DEBUG"
  | info => "INFO"
  | warning => "WARNING"

/-- An entry of a log. -/
structure LogEntry where
  /-- How much it matters. -/
  level : LogLevel
  /-- What it says. -/
  message : String
  deriving DecidableEq, Repr, Inhabited

/-- Whether an entry is written: warnings always are, all else only in a verbose run. -/
def LogEntry.isWritten (verbose : Bool) (entry : LogEntry) : Bool :=
  verbose || entry.level == .warning

/-- The line of an entry that was made at a time of day. -/
def LogEntry.line (time : String) (entry : LogEntry) : String :=
  time ++ " [" ++ entry.level.name ++ "] " ++ entry.message ++ "\n"

/-- The lines of a log; the clock tells at what time of day each entry was made. -/
def Log.text (clock : Nat → String) (log : List LogEntry) : String :=
  String.join (log.mapIdx fun i entry => entry.line (clock i))

end StarlarkLint
