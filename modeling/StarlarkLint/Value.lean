import StarlarkLint.Calendar
import StarlarkLint.Dialect
import StarlarkLint.Text.Decimal
import StarlarkLint.Text.Quoted

/-!
# Values of settings

What a setting can be given: a document or the caller may supply values of any of these shapes, only
some of which a setting accepts.  Dialects themselves can come from the caller only; the other
values may stand in a document too.

A document is read by a reader that is not part of the linter, so that the linter works with any.

## Main definitions

* `Value` — the values.
* `Value.shown` — how a value is shown in messages.
* `Value.isShowable`, `Value.spelled?` — whether a value can be shown, and the text that it is
  converted to.
* `Value.isEmpty` — values that count as nothing.
* `Loader`, `LoadFailure` — readers of documents, and why they give no value.
-/

namespace StarlarkLint

/-- A value. -/
inductive Value
  /-- No value. -/
  | null
  /-- A truth value. -/
  | bool (b : Bool)
  /-- An integer. -/
  | int (n : Int)
  /-- A floating-point number. -/
  | float (x : Float)
  /-- A text. -/
  | text (s : String)
  /-- Bytes. -/
  | bytes (bs : List UInt8)
  /-- A day. -/
  | day (d : Day)
  /-- A moment. -/
  | moment (m : Moment)
  /-- A list. -/
  | list (items : List Value)
  /-- A key with its value, as an item of a list. -/
  | pair (key value : Value)
  /-- A mapping, in the order in which its keys came. -/
  | map (entries : List (Value × Value))
  /-- A set, in the order in which its members came. -/
  | set (members : List Value)
  /-- A list or, if `keyed`, a mapping inside itself. -/
  | loop (keyed : Bool)
  /-- A dialect. -/
  | dialect (d : Dialect)
  deriving Repr, Inhabited, BEq

namespace Value

mutual

/-- A value as it is shown in messages. -/
def shown : Value → String
  | null => "None"
  | bool b => if b then "True" else "False"
  | int n => toString n
  | float x => Text.showFloat x
  | text s => Text.quoted s
  | bytes bs => Text.quotedBytes bs
  | day d => d.shown
  | moment m => m.shown
  | list items => "[" ++ ", ".intercalate (shownAll items) ++ "]"
  | pair key value => "(" ++ shown key ++ ", " ++ shown value ++ ")"
  | map entries => "\x7b" ++ ", ".intercalate (shownEntries entries) ++ "\x7d"
  | set members =>
    if members.isEmpty then "set()" else "\x7b" ++ ", ".intercalate (shownAll members) ++ "\x7d"
  | loop keyed => if keyed then "\x7b...\x7d" else "[...]"
  | dialect d => d.shown

/-- The items of a list as they are shown. -/
def shownAll : List Value → List String
  | [] => []
  | v :: vs => shown v :: shownAll vs

/-- The entries of a mapping as they are shown. -/
def shownEntries : List (Value × Value) → List String
  | [] => []
  | (k, v) :: rest => (shown k ++ ": " ++ shown v) :: shownEntries rest

end

/-- The most digits of an integer that is converted to a text. -/
def digitLimit : Nat := 4300

mutual

/-- Whether a value can be shown: it holds no integer with too many digits. -/
def isShowable : Value → Bool
  | int n => n.natAbs < Nat.pow 10 digitLimit
  | list items => allShowable items
  | pair key value => isShowable key && isShowable value
  | map entries => entriesShowable entries
  | set members => allShowable members
  | null | bool _ | float _ | text _ | bytes _ | day _ | moment _ | loop _ | dialect _ => true

/-- Whether all the items of a list can be shown. -/
def allShowable : List Value → Bool
  | [] => true
  | v :: vs => isShowable v && allShowable vs

/-- Whether all the entries of a mapping can be shown. -/
def entriesShowable : List (Value × Value) → Bool
  | [] => true
  | (k, v) :: rest => isShowable k && isShowable v && entriesShowable rest

end

/-- The text that a value is converted to, if there is one: texts are their own, days, moments and
dialects have one, and all else is converted to what it is shown as. -/
def spelled? : Value → Option String
  | text s => some s
  | day d => some d.text
  | moment m => some m.text
  | dialect d => some d.text
  | value => if value.isShowable then some value.shown else none

/-- Whether there is no value. -/
def isNull : Value → Bool
  | null => true
  | _ => false

/-- Values that count as nothing: no value, false, zero, and what holds nothing. -/
def isEmpty : Value → Bool
  | null => true
  | bool b => !b
  | int n => n == 0
  | float x => x == 0.0
  | text s => s == ""
  | bytes bs => bs.isEmpty
  | day _ | moment _ | pair .. | loop _ | dialect _ => false
  | list items => items.isEmpty
  | map entries => entries.isEmpty
  | set members => members.isEmpty

/-- The integer that a key counts as: truth values count as zero and one. -/
def integer? : Value → Option Int
  | bool b => some (if b then 1 else 0)
  | int n => some n
  | float x => Text.exactInt? x
  | _ => none

/-- Whether two values are the same key of a mapping: numbers are when they are equal as numbers,
moments when they are the same. -/
def sameKey (a b : Value) : Bool :=
  match integer? a, integer? b with
  | some m, some n => m == n
  | none, none =>
    match a, b with
    -- there is only one undefined number, although it does not equal itself
    | float x, float y => x == y || (x.isNaN && y.isNaN)
    | moment m, moment n => m.same n
    | _, _ => a == b
  | _, _ => false

/-- Put an entry into a mapping: a key that is there keeps its place and gets the new value. -/
def insert (entries : List (Value × Value)) (key value : Value) : List (Value × Value) :=
  if entries.any (sameKey key ·.1) then
    entries.map fun (k, v) => if sameKey key k then (k, value) else (k, v)
  else entries ++ [(key, value)]

/-- Put entries into a mapping; they hide those that are there for the same keys. -/
def update (config entries : List (Value × Value)) : List (Value × Value) := entries ++ config

/-- The value of a text key. -/
def lookup? (entries : List (Value × Value)) (key : String) : Option Value :=
  (entries.find? fun
    | (.text k, _) => k == key
    | _ => false).map (·.2)

end Value

/-! ### Reading documents -/

/-- Why a reader gives no value for a file. -/
inductive LoadFailure
  /-- The text of the file is malformed; the reason is given in words. -/
  | malformed (reason : String)
  /-- The bytes of the file, as far as they were read, are not UTF-8. -/
  | notUtf8
  /-- The reader fails otherwise, and was not expected to. -/
  | unexpected
  deriving DecidableEq, Repr, Inhabited

/-- A reader of documents: it is handed a file, decodes as much of its bytes as it needs, and
answers with the value of the one document there. -/
abbrev Loader := ByteArray → Except LoadFailure Value

end StarlarkLint
