import StarlarkLint.Text.Base64
import StarlarkLint.Text.Blank
import StarlarkLint.Text.Encoding
import StarlarkLint.Value
import StarlarkLint.Yaml.Time
import StarlarkLint.Yaml.Tree

/-!
# Values of YAML documents

This is the reader that the program reads files of settings with.  What is proved about settings
holds with any other in its place.

A scalar without a tag stands for no value, a truth value, a number or a time if it is plain and has
the form of one, and for its text otherwise.  The entries of mappings that are merged into a mapping
come before its own; of two entries with the same key the later one counts.

## Main definitions

* `Yaml.implicit` — what a plain scalar stands for.
* `Tree.value` — the value of a node.
* `Yaml.load`, `Yaml.loader` — the value of the one document of a text, and of a file.
-/

namespace StarlarkLint.Yaml

/-! ### Forms of scalars -/

/-- The texts that stand for no value. -/
def nullTexts : List String := ["", "~", "null", "Null", "NULL"]

/-- The texts that stand for true. -/
def trueTexts : List String :=
  ["yes", "Yes", "YES", "true", "True", "TRUE", "on", "On", "ON"]

/-- The texts that stand for false. -/
def falseTexts : List String :=
  ["no", "No", "NO", "false", "False", "FALSE", "off", "Off", "OFF"]

/-- The truth value that a text stands for. -/
def bool? (text : String) : Option Bool :=
  if text ∈ trueTexts then some true else if text ∈ falseTexts then some false else none

/-- A sign and what follows it. -/
def signed : List Char → Bool × List Char
  | '-' :: cs => (true, cs)
  | '+' :: cs => (false, cs)
  | cs => (false, cs)

/-- The number that digits of a base spell, underscores left out; there must be a digit. -/
def digits? (base : Nat) (cs : List Char) : Option Nat :=
  let ds := cs.filter (· ≠ '_')
  if ds = [] then none
  else ds.foldlM (fun n c => (hexDigit? c).bind fun d =>
    if d < base then some (n * base + d) else none) 0

/-- The parts of a number to the base sixty behind its first part: one or two digits each. -/
def sixtieths? (parts : List (List Char)) : Option (List Nat) :=
  parts.mapM fun part =>
    match part with
    | [d] => digits? 10 [d]
    | [t, d] => if '0' ≤ t ∧ t ≤ '5' ∧ d.isDigit then digits? 10 [t, d] else none
    | _ => none

/-- The natural number that a text without a sign stands for. -/
def natural? : List Char → Option Nat
  | ['0'] => some 0
  | '0' :: 'b' :: cs => digits? 2 cs
  | '0' :: 'x' :: cs => digits? 16 cs
  | '0' :: cs => if cs.all (· == '_') then some 0 else digits? 8 cs
  | c :: cs =>
    if !c.isDigit then none
    else match (c :: cs).splitOn ':' with
      | [whole] => digits? 10 whole
      | whole :: parts => do
        let n ← digits? 10 whole
        let more ← sixtieths? parts
        some (more.foldl (fun n d => n * 60 + d) n)
      | [] => none
  | [] => none

/-- The integer that a text stands for. -/
def int? (cs : List Char) : Option Int :=
  let (negative, body) := signed cs
  (natural? body).map fun n => if negative then -(n : Int) else n

/-- The exponent behind a fraction: the sign has to be there. -/
def exponent? : List Char → Option Int
  | [] => some 0
  | e :: sign :: c :: cs =>
    if (e = 'e' ∨ e = 'E') ∧ (sign = '+' ∨ sign = '-') ∧ (c :: cs).all Char.isDigit then
      (digits? 10 (c :: cs)).map fun n => if sign = '-' then -(n : Int) else n
    else none
  | _ => none

/-- The number `mantissa * 10 ^ exponent`.  Exponents that are out of range anyhow are cut short. -/
def scientific (mantissa : Nat) (exponent : Int) : Float :=
  let digits : Int := (Nat.toDigits 10 mantissa).length
  let e := max (-400 - digits) (min 400 exponent)
  if e < 0 then Float.ofScientific mantissa true e.natAbs
  else Float.ofScientific mantissa false e.natAbs

/-- Whether a part of a number may be written so: digits and underscores. -/
def isDigits (cs : List Char) : Bool := cs.all fun c => c.isDigit || c == '_'

/-- The fraction that stands behind a point, as its digits and its exponent. -/
def fraction? (cs : List Char) : Option (List Char × Int) :=
  let digits := cs.takeWhile fun c => c.isDigit || c == '_'
  (exponent? (cs.drop digits.length)).map (digits, ·)

/-- The number of a whole part and a fraction. -/
def decimal (whole fraction : List Char) (exponent : Int) : Float :=
  let places := (fraction.filter (· ≠ '_')).length
  scientific ((digits? 10 (whole ++ fraction)).getD 0) (exponent - places)

/-- The number to the base sixty of its parts, the last of them first. -/
def sixties (base : Nat) : List Float → Float
  | [] => 0.0
  | part :: parts => sixtiesFrom (0.0 + part * Float.ofNat base) (base * 60) parts
where
  /-- The sum so far, with the parts that are left. -/
  sixtiesFrom (sum : Float) (base : Nat) : List Float → Float
    | [] => sum
    | part :: parts => sixtiesFrom (sum + part * Float.ofNat base) (base * 60) parts

/-- The floating-point number that a text without a sign stands for: it has a point. -/
def positive? (cs : List Char) : Option Float :=
  let whole := cs.takeWhile (· ≠ '.')
  match cs.drop whole.length with
  | [] => none
  | _ :: behind =>
    if !whole.head?.any Char.isDigit then none
    else if isDigits whole then do
      let (digits, e) ← fraction? behind
      some (decimal whole digits e)
    else match whole.splitOn ':' with
      | first :: parts =>
        if isDigits first && isDigits behind then do
          let more ← sixtieths? parts
          let last ← more.getLast?
          let lastPart := decimal (toString last).toList behind 0
          let before := (((digits? 10 first).getD 0) :: more.dropLast).map Float.ofNat
          some (sixties 1 (lastPart :: before.reverse))
        else none
      | [] => none

/-- The floating-point number that a text stands for. -/
def float? (cs : List Char) : Option Float :=
  let (negative, body) := signed cs
  let sign (x : Float) : Float := if negative then -x else x
  if body ∈ [".inf".toList, ".Inf".toList, ".INF".toList] then some (sign (1.0 / 0.0))
  else if cs ∈ [".nan".toList, ".NaN".toList, ".NAN".toList] then some (0.0 / 0.0)
  else match cs with
    | '.' :: c :: rest =>
      if c.isDigit then (fraction? (c :: rest)).map fun (digits, e) => decimal [] digits e else none
    | _ => (positive? body).map sign

/-- Whether a text is the head of a number to another base than ten with underscores for digits. -/
def lacksDigits (cs : List Char) : Bool :=
  match (signed cs).2 with
  | '0' :: base :: '_' :: rest => (base = 'b' ∨ base = 'x') ∧ rest.all (· == '_')
  | _ => false

/-- Whether a number to the base ten has more digits than are read.  Numbers to the bases two, eight
and sixteen, which start with a zero, may have any number of digits. -/
def isOverlong (cs : List Char) : Bool :=
  match (signed cs).2 with
  | '0' :: _ => false
  | body => Value.digitLimit < ((body.takeWhile (· ≠ ':')).filter (· ≠ '_')).length

/-! ### Numbers with a tag

A text that is said to be a number may be written in more ways than one that has to be told from
other texts: blanks around it do not count, and a floating-point number needs no point. -/

/-- The integer that a text stands for as a number to a base, with a sign or none and, as it may be,
a zero and a letter for the base in front of the digits. -/
def converted? (base : Nat) (letter : Option Char) (cs : List Char) : Option Int :=
  let (negative, body) := signed (Text.trim cs)
  let body := match body with
    | '0' :: c :: digits => if some c.toLower = letter then digits else body
    | _ => body
  (digits? base body).map fun n => if negative then -(n : Int) else n

/-- The integer that a text stands for if it is said to be one. -/
def statedInt? (cs : List Char) : Option Int :=
  let (negative, body) := signed (cs.filter (· ≠ '_'))
  let n? := match body with
    | '0' :: 'b' :: digits => converted? 2 (some 'b') digits
    | '0' :: 'x' :: digits => converted? 16 (some 'x') digits
    | ['0'] => some 0
    | '0' :: _ => converted? 8 (some 'o') body
    | _ =>
      match body.splitOn ':' with
      | [whole] => converted? 10 none whole
      | parts => (parts.mapM (converted? 10 none)).map (List.foldl (fun n d => n * 60 + d) 0)
  n?.map fun n => if negative then -n else n

/-- The floating-point number that a text in lower case stands for, with or without a point and an
exponent. -/
def convertedFloat? (cs : List Char) : Option Float := do
  let (negative, body) := signed (Text.trim cs)
  let sign (x : Float) : Float := if negative then -x else x
  if body ∈ ["inf".toList, "infinity".toList] then some (sign (1.0 / 0.0))
  else if body = "nan".toList then some (0.0 / 0.0)
  else
    let mantissa := body.takeWhile (· ≠ 'e')
    let whole := mantissa.takeWhile (· ≠ '.')
    let fraction := mantissa.drop (whole.length + 1)
    let exponent ← match body.drop mantissa.length with
      | [] => some 0
      | _ :: e => converted? 10 none e
    if whole ++ fraction ≠ [] ∧ (whole ++ fraction).all Char.isDigit then
      some (sign (decimal whole fraction exponent))
    else none

/-- The floating-point number that a text stands for if it is said to be one. -/
def statedFloat? (cs : List Char) : Option Float :=
  let (negative, body) := signed ((cs.filter (· ≠ '_')).map Char.toLower)
  let x? :=
    if body = ".inf".toList then some (1.0 / 0.0)
    else if body = ".nan".toList then some (0.0 / 0.0)
    else match body.splitOn ':' with
      | [whole] => convertedFloat? whole
      | parts => (parts.mapM convertedFloat?).map fun parts => sixties 1 parts.reverse
  x?.map fun x => if negative then -x else x

/-! ### What scalars stand for -/

/-- The value of a day or a moment, which has to be one that there is. -/
def ofTime (time : Time) : Except Problem Value :=
  if time.isValid then
    match time with
    | .day d => .ok (.day d)
    | .moment m => .ok (.moment m)
  else .error .noSuchValue

/-- What a plain scalar stands for.  Two signs have a meaning as keys only. -/
def implicit (text : String) : Except Problem Value :=
  let cs := text.toList
  if text = "<<" ∨ text = "=" then .error .badValue
  else if text ∈ nullTexts then .ok .null
  else if lacksDigits cs then .error .noSuchValue
  else match bool? text, float? cs, int? cs, time? false cs with
    | some b, _, _, _ => .ok (.bool b)
    | none, some x, _, _ => .ok (.float x)
    | none, none, some n, _ => if isOverlong cs then .error .noSuchValue else .ok (.int n)
    | none, none, none, some time => ofTime time
    | none, none, none, none => .ok (.text text)

/-- A tag of the language by its last part. -/
def standardTag (name : String) : String := "tag:yaml.org,2002:" ++ name

/-- The value that a tag asks for, if there is one. -/
def required {α : Type} (make : α → Except Problem Value) : Option α → Except Problem Value
  | some a => make a
  | none => .error .noSuchValue

/-- What a scalar with a tag stands for. -/
def tagged (tag text : String) : Except Problem Value :=
  let cs := text.toList
  if tag = standardTag "str" then .ok (.text text)
  else if tag = standardTag "null" then .ok .null
  else if tag = standardTag "bool" then required (.ok ∘ .bool) (bool? text.toLower)
  else if tag = standardTag "int" then
    required (.ok ∘ .int) (if isOverlong cs then none else statedInt? cs)
  else if tag = standardTag "float" then
    required (.ok ∘ .float) (statedFloat? cs)
  else if tag = standardTag "timestamp" then required ofTime (time? true cs)
  else if tag = standardTag "binary" then
    match if cs.all (·.toNat < 0x80) then Text.decodeBase64? cs else none with
    | some bytes => .ok (.bytes bytes)
    | none => .error .badValue
  else .error .badValue

/-! ### Values of nodes -/

namespace Tree

/-- A key that merges another mapping into its own. -/
def isMerge : Tree → Bool
  | scalar none text plain => plain && text == "<<"
  | scalar (some tag) _ _ => tag == standardTag "merge"
  | _ => false

/-- The given entries without those that do not count, since a later one has the same key. -/
def collect (entries : List (Value × Value)) : List (Value × Value) :=
  entries.foldl (fun m (k, v) => Value.insert m k v) []

/-- The tags of a list of entries, with keys that may repeat or, as documents are not checked for
that, with keys that should not. -/
def entryListTags : List String := [standardTag "omap", standardTag "pairs"]

/-- A key whose value a mapping has as a scalar. -/
def isValueKey : Tree → Bool
  | scalar none text plain => plain && text == "="
  | scalar (some tag) _ _ => tag == standardTag "value"
  | _ => false

mutual

/-- The text that a node has as a scalar; a mapping may name it. -/
def scalarText? : Tree → Option String
  | scalar _ text _ => some text
  | mapping _ entries => namedText? entries
  | _ => none

/-- The text that the first entry which names one has as a scalar. -/
def namedText? : List (Tree × Tree) → Option String
  | [] => none
  | (key, tree) :: rest => if isValueKey key then scalarText? tree else namedText? rest

end

mutual

/-- The value of a node. -/
def value : Tree → Except Problem Value
  | scalar none text plain => if plain then implicit text else .ok (.text text)
  | scalar (some tag) text _ => tagged tag text
  | sequence tag items =>
    let tag := tag.getD (standardTag "seq")
    if tag = standardTag "seq" then do
      let vs ← values items
      .ok (.list vs)
    else if tag ∈ entryListTags then do
      let vs ← entryValues items
      .ok (.list vs)
    else .error .badValue
  | mapping tag entries =>
    let tag := tag.getD (standardTag "map")
    if tag = standardTag "map" then do
      let (merged, own) ← pairs entries
      .ok (.map (collect (merged ++ own)))
    else if tag = standardTag "set" then do
      let (merged, own) ← pairs entries
      .ok (.set ((collect (merged ++ own)).map (·.1)))
    else match namedText? entries with
      | some text => tagged tag text
      | none => .error .badValue
  | loop keyed => .ok (.loop keyed)

/-- The values of the items of a sequence. -/
def values : List Tree → Except Problem (List Value)
  | [] => .ok []
  | tree :: trees => do
    let v ← value tree
    let vs ← values trees
    .ok (v :: vs)

/-- The values of the items of a list of entries: mappings with one entry each. -/
def entryValues : List Tree → Except Problem (List Value)
  | [] => .ok []
  | mapping _ [(key, tree)] :: trees => do
    let k ← value key
    let v ← value tree
    let vs ← entryValues trees
    .ok (.pair k v :: vs)
  | _ :: _ => .error .badValue

/-- The key of an entry; a sign that has a meaning only there stands for itself. -/
def keyValue : Tree → Except Problem Value
  | scalar none text plain =>
    if plain && text != "=" then implicit text else .ok (.text text)
  | scalar (some tag) text _ =>
    if tag = standardTag "value" then .ok (.text text) else tagged tag text
  | _ => .error .badValue

/-- The entries of a mapping: those that are merged into it, and its own. -/
def pairs : List (Tree × Tree) → Except Problem (List (Value × Value) × List (Value × Value))
  | [] => .ok ([], [])
  | (key, tree) :: rest => do
    if isMerge key then
      let merged ← mergedPairs tree
      let (more, own) ← pairs rest
      .ok (merged ++ more, own)
    else
      let k ← keyValue key
      let v ← value tree
      -- an own entry comes after all merged ones, wherever the merge stands
      let (merged, own) ← pairs rest
      .ok (merged, (k, v) :: own)

/-- The entries that a node merges into a mapping: those of a mapping, or those of the mappings of a
sequence, last first. -/
def mergedPairs : Tree → Except Problem (List (Value × Value))
  | mapping _ entries => do
    let (merged, own) ← pairs entries
    .ok (merged ++ own)
  | sequence _ items => mergedItems items
  -- a mapping that is merged into itself adds nothing
  | loop _ => .ok []
  | scalar .. => .error .badValue

/-- The entries of the mappings of a sequence, last first. -/
def mergedItems : List Tree → Except Problem (List (Value × Value))
  | [] => .ok []
  | mapping _ entries :: trees => do
    let (merged, own) ← pairs entries
    let more ← mergedItems trees
    .ok (more ++ merged ++ own)
  | loop true :: trees => mergedItems trees
  | _ :: _ => .error .badValue

end

end Tree

/-- The value of the one document of a text; a text without a document has no value. -/
def load (text : String) : Except Problem Value := do
  match ← document text with
  | some tree => tree.value
  | none => .ok .null

/-- A reader of YAML files. -/
def loader : Loader := fun bytes =>
  match Text.decodeUtf8? bytes with
  | none => .error .notUtf8
  | some text =>
    match load text with
    | .ok value => .ok value
    | .error .noSuchValue => .error .unexpected
    | .error problem => .error (.malformed problem.text)

end StarlarkLint.Yaml
