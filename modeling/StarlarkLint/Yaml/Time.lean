import StarlarkLint.Calendar

/-!
# Days and moments in YAML

A day is written with dashes between its numbers.  Behind it a time of day may follow, with colons
between its numbers, and behind that how far the clock is ahead of universal time.

## Main definitions

* `Time`, `Time.isValid` — a day or a moment, and those that there are.
* `time?` — the day or moment that a text spells.
-/

namespace StarlarkLint.Yaml

/-- A day or a moment. -/
inductive Time
  /-- A day. -/
  | day (d : Day)
  /-- A moment. -/
  | moment (m : Moment)
  deriving DecidableEq, Repr

/-- Whether there is such a day or moment. -/
def Time.isValid : Time → Bool
  | day d => d.isValid
  | moment m => m.isValid

namespace Time

/-- A number of `least` to `most` digits, and what follows it. -/
def number (least most : Nat) (cs : List Char) : Option (Nat × List Char) :=
  let digits := (cs.take most).takeWhile Char.isDigit
  if digits.length < least then none
  else some (digits.foldl (fun n d => n * 10 + (d.toNat - '0'.toNat)) 0, cs.drop digits.length)

/-- What follows a given character. -/
def behind (sign : Char) : List Char → Option (List Char)
  | c :: cs => if c = sign then some cs else none
  | [] => none

/-- What follows blanks. -/
def skipBlanks (cs : List Char) : List Char := cs.dropWhile fun c => c == ' ' || c == '\t'

/-- The digits behind a point as microseconds, further digits cut off. -/
def micros (digits : List Char) : Nat :=
  let six := (digits ++ List.replicate 6 '0').take 6
  six.foldl (fun n d => n * 10 + (d.toNat - '0'.toNat)) 0

/-- The microseconds that may follow a second, and what follows them. -/
def fraction (cs : List Char) : Nat × List Char :=
  match cs with
  | '.' :: rest =>
    let digits := rest.takeWhile Char.isDigit
    (micros digits, rest.drop digits.length)
  | _ => (0, cs)

/-- Hours and, behind a colon, minutes up to the end of a text. -/
def aheadBy (cs : List Char) : Option Nat := do
  let (hours, cs) ← number 1 2 cs
  match cs with
  | [] => some (hours * 60)
  | c :: cs =>
    if c = ':' then
      let (minutes, cs) ← number 2 2 cs
      if cs = [] then some (hours * 60 + minutes) else none
    else none

/-- The minutes that a clock is ahead, up to the end of a text. -/
def ahead (cs : List Char) : Option (Option Int) :=
  if cs = [] then some none
  else match skipBlanks cs with
    | ['Z'] => some (some 0)
    | '+' :: rest => (aheadBy rest).map fun minutes => some (minutes : Int)
    | '-' :: rest => (aheadBy rest).map fun minutes => some (-(minutes : Int))
    | _ => none

/-- A time of day up to the end of a text. -/
def clock (day : Day) (cs : List Char) : Option Moment := do
  let (hour, cs) ← number 1 2 cs
  let (minute, cs) ← number 2 2 (← behind ':' cs)
  let (second, cs) ← number 2 2 (← behind ':' cs)
  let (micro, cs) := fraction cs
  some { day, hour, minute, second, micro, ahead := ← ahead cs }

end Time

/-- The day or moment that a text spells.  In a moment the month and the number in it may have one
digit, in a day only if the text is known to spell one. -/
def time? (known : Bool) (cs : List Char) : Option Time := do
  let (year, cs) ← Time.number 4 4 cs
  let (month, cs') ← Time.number 1 2 (← Time.behind '-' cs)
  let (number, rest) ← Time.number 1 2 (← Time.behind '-' cs')
  let day : Day := ⟨year, month, number⟩
  match rest with
  | [] => if known ∨ cs.length = 6 then some (.day day) else none
  | c :: behind =>
    if c = 'T' ∨ c = 't' then (Time.clock day behind).map .moment
    else if c = ' ' ∨ c = '\t' then (Time.clock day (Time.skipBlanks behind)).map .moment
    else none

end StarlarkLint.Yaml
