import StarlarkLint.Review

/-!
# Reports

What a run found, as lines of text or as one JSON text.  JSON is written over several lines, two
columns of indentation to a level, and in ASCII: other characters are written by their UTF-16 units.

## Main definitions

* `Json.Value`, `Json.Value.render` — JSON values and how they are written.
* `Report.lines`, `Report.complaints` — findings and errors as lines.
* `Report.json` — both as a JSON text.
-/

namespace StarlarkLint

namespace Json

/-- A JSON value. -/
inductive Value
  /-- A truth value. -/
  | bool (b : Bool)
  /-- An integer. -/
  | int (n : Int)
  /-- A text. -/
  | text (s : String)
  /-- A list. -/
  | list (items : List Value)
  /-- An object, with its fields in order. -/
  | object (fields : List (String × Value))
  deriving Repr, Inhabited

/-- A unit of UTF-16 by its number. -/
def unit (n : Nat) : String := "\\u" ++ StarlarkLint.Text.hex 4 n

/-- A character inside a text. -/
def escaped (c : Char) : String :=
  match c with
  | '"' => "\\\""
  | '\\' => "\\\\"
  | '\n' => "\\n"
  | '\r' => "\\r"
  | '\t' => "\\t"
  | '\x08' => "\\b"
  | '\x0c' => "\\f"
  | c =>
    let n := c.toNat
    if 0x20 ≤ n ∧ n < 0x7f then c.toString
    else if n < 0x10000 then unit n
    -- beyond the first plane a character has two units
    else unit (0xd800 + (n - 0x10000) / 0x400) ++ unit (0xdc00 + (n - 0x10000) % 0x400)

/-- A text between quotes. -/
def written (s : String) : String := "\"" ++ String.join (s.toList.map escaped) ++ "\""

/-- The beginning of a line at a level of indentation. -/
def newLine (level : Nat) : String := String.ofList ('\n' :: List.replicate (2 * level) ' ')

/-- Parts between brackets, each on lines of its own. -/
def bracketed (opener closer : String) (level : Nat) (parts : List String) : String :=
  if parts = [] then opener ++ closer
  else
    opener ++ newLine (level + 1) ++ ("," ++ newLine (level + 1)).intercalate parts
      ++ newLine level ++ closer

mutual

/-- A value as it is written at a level of indentation. -/
def Value.render (level : Nat) : Value → String
  | .bool b => if b then "true" else "false"
  | .int n => toString n
  | .text s => written s
  | .list items => bracketed "[" "]" level (texts (level + 1) items)
  | .object fields => bracketed "\x7b" "\x7d" level (fieldTexts (level + 1) fields)

/-- The items of a list as they are written. -/
def texts (level : Nat) : List Value → List String
  | [] => []
  | v :: vs => v.render level :: texts level vs

/-- The fields of an object as they are written. -/
def fieldTexts (level : Nat) : List (String × Value) → List String
  | [] => []
  | (key, v) :: rest => (written key ++ ": " ++ v.render level) :: fieldTexts level rest

end

end Json

namespace Report

/-- A place in a file. -/
def ofPosition (p : Position) : Json.Value :=
  .object [("line", .int p.line), ("col", .int p.column)]

/-- A finding. -/
def ofFinding (f : Finding) : Json.Value :=
  .object
    [("file", .text f.file), ("category", .text f.category), ("message", .text f.message),
     ("span", .object [("start", ofPosition f.span.start), ("end", ofPosition f.span.stop)]),
     ("fixable", .bool f.actionable)]

/-- The error of a review. -/
def ofError? (r : Review) : Option Json.Value :=
  r.error.map fun e => .object [("file", .text r.path.text), ("message", .text e.message)]

/-- The findings and errors of reviews as a JSON text. -/
def json (reviews : List Review) : String :=
  let findings := reviews.flatMap (·.findings)
  let report : Json.Value :=
    .object
      [("findings", .list (findings.map ofFinding)), ("errors", .list (reviews.filterMap ofError?))]
  report.render 0 ++ "\n"

/-- Lines, each with its end. -/
def lines (texts : List String) : String := String.join (texts.map (· ++ "\n"))

/-- The findings of reviews, one to a line. -/
def findings (reviews : List Review) : String :=
  lines ((reviews.flatMap (·.findings)).map Finding.line)

/-- The errors of reviews, one to a line. -/
def complaints (reviews : List Review) : String :=
  lines (reviews.filterMap fun r =>
    r.error.map fun e => r.path.text ++ ": parse-error: " ++ e.message)

end Report

end StarlarkLint
