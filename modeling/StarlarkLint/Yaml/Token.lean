import StarlarkLint.Yaml.Scalar

/-!
# YAML tokens

A YAML text as a list of tokens, in which indentation has become marks for the beginning and the end
of blocks.  Where a scalar turns out to be a key only at the colon behind it, the mark of the key is
put in front of it afterwards.

## Main definitions

* `Yaml.Token` — the tokens.
* `Yaml.Scanner` — a place in a text, with what has been read so far.
* `Yaml.tokens` — the tokens of a text.
-/

namespace StarlarkLint.Yaml

/-- The tokens. -/
inductive Token
  /-- The end of the text. -/
  | streamEnd
  /-- A directive that names the version of the language. -/
  | version (major minor : Nat)
  /-- A directive that declares a handle for tags. -/
  | handle (name uri : String)
  /-- Any other directive. -/
  | directive
  /-- The mark in front of a document. -/
  | documentStart
  /-- The mark behind a document. -/
  | documentEnd
  /-- The beginning of a sequence written as a block. -/
  | blockSequenceStart
  /-- The beginning of a mapping written as a block. -/
  | blockMappingStart
  /-- The end of a block. -/
  | blockEnd
  /-- An opening bracket. -/
  | flowSequenceStart
  /-- A closing bracket. -/
  | flowSequenceEnd
  /-- An opening brace. -/
  | flowMappingStart
  /-- A closing brace. -/
  | flowMappingEnd
  /-- A key follows. -/
  | key
  /-- The value of a key follows. -/
  | value
  /-- An item of a sequence written as a block follows. -/
  | blockEntry
  /-- A comma. -/
  | flowEntry
  /-- The name of a node that was met before. -/
  | alias (name : String)
  /-- A name for the node that follows. -/
  | anchor (name : String)
  /-- A tag for the node that follows. -/
  | tag (handle : Option String) (suffix : String)
  /-- A scalar. -/
  | scalar (text : String) (plain : Bool)
  deriving DecidableEq, Repr, Inhabited

/-- A place where a key may have started. -/
structure KeyStart where
  /-- The number of tokens before it. -/
  number : Nat
  /-- Whether only a key can stand there. -/
  required : Bool
  /-- The place. -/
  place : Cursor
  deriving Repr

/-- A place in a text, with what has been read so far. -/
structure Scanner where
  /-- The place. -/
  cursor : Cursor
  /-- The tokens read so far, last first. -/
  read : List Token := []
  /-- The number of brackets and braces that are open. -/
  flow : Nat := 0
  /-- The column of the block that is open, or one less than zero. -/
  indent : Int := -1
  /-- The columns of the blocks around it. -/
  outer : List Int := []
  /-- Whether a key may start here. -/
  keyAllowed : Bool := true
  /-- Where keys may have started, by the number of open brackets. -/
  keys : List (Nat × KeyStart) := []
  deriving Repr

namespace Scanner

/-- An outcome of reading on. -/
abbrev Result := Except Problem Scanner

/-- The scanner with one more token. -/
def emit (token : Token) (s : Scanner) : Scanner := { s with read := token :: s.read }

/-- The scanner some characters further on. -/
def skip (n : Nat) (s : Scanner) : Scanner := { s with cursor := s.cursor.skip n }

/-- The scanner with tokens put in front of the one with the given number. -/
def insertAt (number : Nat) (tokens : List Token) (s : Scanner) : Scanner :=
  let behind := s.read.length - number
  { s with read := s.read.take behind ++ tokens.reverse ++ s.read.drop behind }

/-! ### Keys -/

/-- Forget places where no key can have started any more, since a key stands on one line and is not
long. -/
def dropStaleKeys (s : Scanner) : Result :=
  let stale (k : Nat × KeyStart) : Bool :=
    k.2.place.line != s.cursor.line || 1024 < s.cursor.index - k.2.place.index
  if s.keys.any fun k => stale k && k.2.required then .error .badToken
  else .ok { s with keys := s.keys.filter (!stale ·) }

/-- Forget the place where a key may have started inside the innermost bracket. -/
def dropKey (s : Scanner) : Result :=
  match s.keys.lookup s.flow with
  | some k =>
    if k.required then .error .badToken
    else .ok { s with keys := s.keys.filter (·.1 != s.flow) }
  | none => .ok s

/-- Remember that a key may start here. -/
def saveKey (s : Scanner) : Result :=
  let required := s.flow == 0 && s.indent == s.cursor.column
  if s.keyAllowed then do
    let s ← s.dropKey
    .ok { s with keys := (s.flow, ⟨s.read.length, required, s.cursor⟩) :: s.keys }
  else .ok s

/-! ### Indentation -/

/-- Close the blocks that are indented further than a column. -/
def unwindTo (column : Int) : List Int → Scanner → Scanner
  | [], s => if column < s.indent then { s.emit .blockEnd with indent := -1, outer := [] } else s
  | around :: outer, s =>
    if column < s.indent then
      unwindTo column outer { s.emit .blockEnd with indent := around, outer }
    else s

/-- Close the blocks that are indented further than a column; inside brackets there are none. -/
def unwind (column : Int) (s : Scanner) : Scanner :=
  if s.flow = 0 then unwindTo column s.outer s else s

/-- Open a block in a column, unless one is open there already. -/
def openBlock (column : Nat) (start : Token) (number : Nat) (s : Scanner) : Scanner :=
  if s.indent < column then
    { s.insertAt number [start] with indent := column, outer := s.indent :: s.outer }
  else s

/-! ### Blanks -/

/-- The place behind blanks, comments and ends of lines.  Outside brackets a key may start on every
line. -/
def skipBlanks : Nat → Scanner → Scanner
  | 0, s => s
  | fuel + 1, s =>
    let c := s.cursor.skipSpaces
    let c := if c.next? = some '#' then c.skipLine else c
    match c.lineBreak? with
    | some (_, c) =>
      skipBlanks fuel { s with cursor := c, keyAllowed := s.keyAllowed || s.flow == 0 }
    | none => { s with cursor := c }

/-! ### Tokens of one sign -/

/-- A mark between documents. -/
def separator (token : Token) (s : Scanner) : Result := do
  let s ← (s.unwind (-1)).dropKey
  .ok (({ s with keyAllowed := false }.emit token).skip 3)

/-- An opening bracket or brace. -/
def openFlow (token : Token) (s : Scanner) : Result := do
  let s ← s.saveKey
  .ok (({ s with flow := s.flow + 1, keyAllowed := true }.emit token).skip 1)

/-- A closing bracket or brace. -/
def closeFlow (token : Token) (s : Scanner) : Result := do
  let s ← s.dropKey
  if s.flow = 0 then .error .badToken
  else .ok (({ s with flow := s.flow - 1, keyAllowed := false }.emit token).skip 1)

/-- A comma inside brackets. -/
def flowEntry (s : Scanner) : Result := do
  let s ← { s with keyAllowed := true }.dropKey
  .ok ((s.emit .flowEntry).skip 1)

/-- The dash in front of an item. -/
def blockEntry (s : Scanner) : Result := do
  if s.flow = 0 ∧ !s.keyAllowed then .error .badToken
  else
    let s := if s.flow = 0 then s.openBlock s.cursor.column .blockSequenceStart s.read.length else s
    let s ← { s with keyAllowed := true }.dropKey
    .ok ((s.emit .blockEntry).skip 1)

/-- The question mark in front of a key. -/
def explicitKey (s : Scanner) : Result := do
  if s.flow = 0 ∧ !s.keyAllowed then .error .badToken
  else
    let s := if s.flow = 0 then s.openBlock s.cursor.column .blockMappingStart s.read.length else s
    let s ← { s with keyAllowed := s.flow == 0 }.dropKey
    .ok ((s.emit .key).skip 1)

/-- The colon behind a key. -/
def value (s : Scanner) : Result :=
  match s.keys.lookup s.flow with
  | some k =>
    let s := { s with keys := s.keys.filter (·.1 != s.flow) }
    -- what was read since then has turned out to be a key
    let s := s.insertAt k.number [.key]
    let s := if s.flow = 0 then s.openBlock k.place.column .blockMappingStart k.number else s
    .ok (({ s with keyAllowed := false }.emit .value).skip 1)
  | none =>
    if s.flow = 0 ∧ !s.keyAllowed then .error .badToken
    else
      -- the key is empty, or a question mark stands in front of it
      let s :=
        if s.flow = 0 then s.openBlock s.cursor.column .blockMappingStart s.read.length else s
      .ok (({ s with keyAllowed := s.flow == 0 }.emit .value).skip 1)

/-! ### Names and tags -/

/-- Characters of names. -/
def isNameChar (c : Char) : Bool := c.isAlphanum || c == '-' || c == '_'

/-- Whether the next character, if there is one, may follow a name. -/
def endsName (next : Option Char) : Bool :=
  endsWord next || next.any (· ∈ ['?', ':', ',', ']', '\x7d', '%', '@', '`'])

/-- An anchor or an alias, from its sign on. -/
def named (token : String → Token) (s : Scanner) : Result := do
  let s ← s.saveKey
  let (name, c) := (s.cursor.skip 1).takeWhile isNameChar
  if name = [] ∨ !endsName c.next? then .error .badToken
  else .ok { s.emit (token (String.ofList name)) with cursor := c, keyAllowed := false }

/-- Characters of the names of tags. -/
def isUriChar (c : Char) : Bool :=
  c.isAlphanum || c ∈ "-;/?:@&=+$,_.!~*'()[]%".toList

/-- The bytes of escapes from here on. -/
def uriEscapes : List Char → Except Problem (List UInt8)
  | '%' :: high :: low :: cs =>
    match hexDigit? high, hexDigit? low with
    | some h, some l => do
      let more ← uriEscapes cs
      .ok (UInt8.ofNat (h * 16 + l) :: more)
    | _, _ => .error .badToken
  | '%' :: _ => .error .badToken
  | _ => .ok []

/-- The name of a tag with its escapes resolved. -/
def unescapeUri : Nat → List Char → Except Problem (List Char)
  | 0, _ => .ok []
  | _, [] => .ok []
  | fuel + 1, c :: cs =>
    if c = '%' then do
      let bytes ← uriEscapes (c :: cs)
      match String.fromUTF8? (ByteArray.mk bytes.toArray) with
      | some text => do
        let more ← unescapeUri fuel ((c :: cs).drop (3 * bytes.length))
        .ok (text.toList ++ more)
      | none => .error .badToken
    else do
      let more ← unescapeUri fuel cs
      .ok (c :: more)

/-- The name of a tag, and the place behind it. -/
def uri (c : Cursor) : Except Problem (String × Cursor) := do
  let (chars, c) := c.takeWhile isUriChar
  if chars = [] then .error .badToken
  else
    let name ← unescapeUri chars.length chars
    .ok (String.ofList name, c)

/-- A handle of a tag, from its first sign to its second. -/
def handle (c : Cursor) : Except Problem (String × Cursor) :=
  if c.next? ≠ some '!' then .error .badToken
  else
    let (name, behind) := (c.skip 1).takeWhile isNameChar
    if behind.next? = some '!' then
      .ok ("!" ++ String.ofList name ++ "!", behind.skip 1)
    else if c.second? = some ' ' then .ok ("!", c.skip 1)
    else .error .badToken

/-- A tag. -/
def tag (s : Scanner) : Result := do
  let s ← s.saveKey
  let c := s.cursor
  let (handle, suffix, c) ← show Except Problem (Option String × String × Cursor) from
    if c.second? = some '<' then do
      let (name, c) ← uri (c.skip 2)
      if c.next? = some '>' then .ok (none, name, c.skip 1) else .error .badToken
    else if endsWord c.second? then .ok (none, "!", c.skip 1)
    else if '!' ∈ (c.rest.drop 1).takeWhile (fun ch => !endsTerm (some ch)) then do
      let (name, c) ← handle c
      let (suffix, c) ← uri c
      .ok (some name, suffix, c)
    else do
      let (suffix, c) ← uri (c.skip 1)
      .ok (some "!", suffix, c)
  if endsTerm c.next? then
    .ok { s.emit (.tag handle suffix) with cursor := c, keyAllowed := false }
  else .error .badToken

/-! ### Directives -/

/-- A number. -/
def number (c : Cursor) : Except Problem (Nat × Cursor) :=
  let (digits, c) := c.takeWhile Char.isDigit
  if digits = [] then .error .badToken
  else .ok (digits.foldl (fun n d => n * 10 + (d.toNat - '0'.toNat)) 0, c)

/-- The directive that stands here, and the place behind it. -/
def directiveToken (c : Cursor) : Except Problem (Token × Cursor) := do
  let (name, c) := (c.skip 1).takeWhile isNameChar
  if name = [] ∨ !endsTerm c.next? then .error .badToken
  else if name = "YAML".toList then do
    let (major, c) ← number c.skipSpaces
    if c.next? ≠ some '.' then .error .badToken
    else do
      let (minor, c) ← number (c.skip 1)
      if endsTerm c.next? then .ok (.version major minor, c) else .error .badToken
  else if name = "TAG".toList then do
    let (name, c) ← handle c.skipSpaces
    if c.next? ≠ some ' ' then .error .badToken
    else do
      let (prefix', c) ← uri c.skipSpaces
      if endsTerm c.next? then .ok (.handle name prefix', c) else .error .badToken
  else .ok (.directive, c.skipLine)

/-- A directive and the rest of its line. -/
def directive (s : Scanner) : Result := do
  let s ← (s.unwind (-1)).dropKey
  let (token, c) ← directiveToken s.cursor
  let c := c.skipSpaces
  let c := if c.next? = some '#' then c.skipLine else c
  match c.next?, c.lineBreak? with
  | none, _ => .ok { s.emit token with cursor := c, keyAllowed := false }
  | some _, some (_, c) => .ok { s.emit token with cursor := c, keyAllowed := false }
  | some _, none => .error .badToken

/-! ### Scalars -/

/-- A block scalar. -/
def block (folded : Bool) (s : Scanner) : Result := do
  let s ← { s with keyAllowed := true }.dropKey
  let (text, c) ← Scalar.block folded (s.indent + 1).toNat s.cursor
  .ok { s.emit (.scalar (String.ofList text) false) with cursor := c }

/-- A scalar between quotes. -/
def quoted (double : Bool) (s : Scanner) : Result := do
  let s ← s.saveKey
  let (text, c) ← Scalar.quoted double s.cursor
  .ok { s.emit (.scalar (String.ofList text) false) with cursor := c, keyAllowed := false }

/-- A plain scalar. -/
def plain (s : Scanner) : Result := do
  let s ← s.saveKey
  let p := Scalar.plain (s.flow != 0) (s.indent + 1).toNat s.cursor
  .ok { s.emit (.scalar (String.ofList p.chars) true) with
    cursor := p.stop, keyAllowed := p.endedLine }

/-- Whether a plain scalar starts here. -/
def startsPlain (flow : Bool) (c : Char) (next : Option Char) : Bool :=
  (!endsWord (some c) && c ∉ "-?:,[]\x7b\x7d#&*!|>'\"%@`".toList)
    || (!endsWord next && (c == '-' || (!flow && (c == '?' || c == ':'))))

/-! ### The next token -/

/-- Read the token that starts with the given character, which stands here. -/
def token (c : Char) (s : Scanner) : Result :=
  let next := s.cursor.second?
  let inFlow := s.flow != 0
  let first := s.cursor.column == 0
  if c == '%' && first then s.directive
  else if first && s.cursor.atMark '-' then s.separator .documentStart
  else if first && s.cursor.atMark '.' then s.separator .documentEnd
  else if c == '[' then s.openFlow .flowSequenceStart
  else if c == '\x7b' then s.openFlow .flowMappingStart
  else if c == ']' then s.closeFlow .flowSequenceEnd
  else if c == '\x7d' then s.closeFlow .flowMappingEnd
  else if c == ',' then s.flowEntry
  else if c == '-' && endsWord next then s.blockEntry
  else if c == '?' && (inFlow || endsWord next) then s.explicitKey
  else if c == ':' && (inFlow || endsWord next) then s.value
  else if c == '*' then s.named .alias
  else if c == '&' then s.named .anchor
  else if c == '!' then s.tag
  else if c == '|' && !inFlow then s.block false
  else if c == '>' && !inFlow then s.block true
  else if c == '\'' then s.quoted false
  else if c == '"' then s.quoted true
  else if startsPlain inFlow c next then s.plain
  else .error .badToken

/-- Read on to the end of the text. -/
def run : Nat → Scanner → Except Problem (List Token)
  | 0, _ => .error .badToken
  | fuel + 1, s => do
    let s := skipBlanks (s.cursor.rest.length + 1) s
    let s ← s.dropStaleKeys
    let s := s.unwind s.cursor.column
    match s.cursor.next? with
    | none => do
      let s ← (s.unwind (-1)).dropKey
      .ok (s.emit .streamEnd).read.reverse
    | some c => do
      let s ← s.token c
      run fuel s

end Scanner

/-- The tokens of a text; a byte order mark at its beginning does not count. -/
def tokens (text : String) : Except Problem (List Token) :=
  let chars := text.toList
  if chars.all isAllowed then
    let start : Cursor := { rest := chars }
    let start := if start.next? = some '\ufeff' then start.skip 1 else start
    Scanner.run (chars.length + 1) { cursor := start }
  else .error .unprintable

end StarlarkLint.Yaml
