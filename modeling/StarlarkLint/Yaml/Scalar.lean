import StarlarkLint.Token.Literal
import StarlarkLint.Yaml.Cursor

/-!
# Texts of scalars

A scalar is written plainly, between quotes, or as a block of lines.  In the first two, the end of a
line counts as a space, and empty lines below it as line feeds.  A block keeps its lines or folds
them, and says what becomes of the empty lines at its end.

## Main definitions

* `Scalar.plain` — a plain scalar.
* `Scalar.quoted` — a scalar between quotes.
* `Scalar.block` — a scalar written as a block.
-/

namespace StarlarkLint.Yaml.Scalar

/-- What an end of line counts as, given the ends of the empty lines below it: a line feed alone
counts as a space. -/
def joint (first : Char) (others : List Char) : List Char :=
  (if first ≠ '\n' then [first] else if others = [] then [' '] else []) ++ others

/-! ### Plain scalars -/

/-- Characters that end a plain scalar inside brackets. -/
def endsInFlow (c : Char) : Bool := c ∈ [',', '?', '[', ']', '{', '}']

/-- Whether a colon with the given character behind it ends a plain scalar. -/
def colonEnds (flow : Bool) (next : Option Char) : Bool :=
  endsWord next || (flow && next.any (· ∈ [',', '[', ']', '{', '}']))

/-- The characters of a plain scalar up to the next blank. -/
def plainWord (flow : Bool) : List Char → List Char
  | [] => []
  | c :: cs =>
    if endsWord (some c) || (c == ':' && colonEnds flow cs.head?) || (flow && endsInFlow c) then []
    else c :: plainWord flow cs

/-- The ends of the empty lines from here on, with the place behind the blanks that follow them;
nothing if a mark between documents comes first. -/
def plainBreaks : Nat → Cursor → Option (List Char) × Cursor
  | 0, c => (some [], c)
  | fuel + 1, c =>
    if c.next? = some ' ' then plainBreaks fuel (c.skip 1)
    else match c.lineBreak? with
      | none => (some [], c)
      | some (ch, c) =>
        if c.atSeparator then (none, c)
        else
          let (more, c) := plainBreaks fuel c
          (more.map (ch :: ·), c)

/-- The blanks between two words of a plain scalar as they count, the place behind them, and whether
the line ended. -/
def plainGap (c : Cursor) : List Char × Cursor × Bool :=
  let (spaces, c) := c.takeWhile (· == ' ')
  match c.lineBreak? with
  | none => (spaces, c, false)
  | some (first, c) =>
    if c.atSeparator then ([], c, true)
    else match plainBreaks c.rest.length c with
      | (none, c) => ([], c, true)
      | (some others, c) => (joint first others, c, true)

/-- What was read of a plain scalar. -/
structure Plain where
  /-- Its characters. -/
  chars : List Char
  /-- The place behind it and the blanks that follow it. -/
  stop : Cursor
  /-- Whether it ended with a line. -/
  endedLine : Bool

/-- The words of a plain scalar from here on, with a gap before the first of them.  Outside brackets
its lines are indented by `indent` columns at least. -/
def plainWords (flow : Bool) (indent : Nat) :
    Nat → List Char → Bool → Cursor → Plain
  | 0, _, ended, c => ⟨[], c, ended⟩
  | fuel + 1, gap, ended, c =>
    let word := if c.next? = some '#' then [] else plainWord flow c.rest
    if word = [] then ⟨[], c, ended⟩
    else
      let (gap', c', ended') := plainGap (c.skip word.length)
      let more : Plain :=
        if gap' = [] || c'.next? == some '#' || (!flow && decide (c'.column < indent)) then
          ⟨[], c', ended'⟩
        else plainWords flow indent fuel gap' ended' c'
      { more with chars := gap ++ word ++ more.chars }

/-- A plain scalar. -/
def plain (flow : Bool) (indent : Nat) (c : Cursor) : Plain :=
  plainWords flow indent c.rest.length [] false c

/-! ### Scalars between quotes -/

/-- What a character stands for behind a backslash. -/
def escape? (c : Char) : Option Char :=
  [('0', '\x00'), ('a', '\x07'), ('b', '\x08'), ('t', '\t'), ('\t', '\t'), ('n', '\n'),
   ('v', '\x0b'), ('f', '\x0c'), ('r', '\r'), ('e', '\x1b'), (' ', ' '), ('"', '"'), ('\\', '\\'),
   ('/', '/'), ('N', '\x85'), ('_', '\xa0'), ('L', '\u2028'), ('P', '\u2029')].lookup c

/-- The number of hexadecimal digits that an escape takes. -/
def escapeWidth? (c : Char) : Option Nat := [('x', 2), ('u', 4), ('U', 8)].lookup c

/-- The number that hexadecimal digits spell. -/
def hexNumber? (digits : List Char) : Option Nat :=
  digits.foldlM (fun n c => (hexDigit? c).map (n * 16 + ·)) 0

/-- The ends of the empty lines from here on, with the place behind the blanks that follow them. -/
def quotedBreaks : Nat → Cursor → Except Problem (List Char × Cursor)
  | 0, _ => .error .badToken
  | fuel + 1, c =>
    if c.atSeparator then .error .badToken
    else
      let (_, c) := c.takeWhile fun ch => ch == ' ' || ch == '\t'
      match c.lineBreak? with
      | none => .ok ([], c)
      | some (ch, c) => do
        let (more, c) ← quotedBreaks fuel c
        .ok (ch :: more, c)

/-- An escape, from behind its backslash. -/
def quotedEscape (c : Cursor) : Except Problem (List Char × Cursor) :=
  match c.next? with
  | none => .error .badToken
  | some ch =>
    match escape? ch, escapeWidth? ch with
    | some stands, _ => .ok ([stands], c.skip 1)
    | none, some width =>
      let digits := (c.rest.drop 1).take width
      match hexNumber? digits with
      | some n =>
        if digits.length ≠ width then .error .badToken
        -- there are no characters beyond
        else if 0x10ffff < n then .error .noSuchValue
        else .ok ([Char.ofNat n], c.skip (width + 1))
      | none => .error .badToken
    | none, none =>
      match c.lineBreak? with
      | some (_, c) => quotedBreaks (c.rest.length + 1) c
      | none => .error .badToken

/-- The characters from here up to the closing quote, which is a double one or a single one, and the
place behind it. -/
def quotedRest (double : Bool) : Nat → Cursor → Except Problem (List Char × Cursor)
  | 0, _ => .error .badToken
  | fuel + 1, c =>
    let prepend (chars : List Char) (c : Cursor) : Except Problem (List Char × Cursor) := do
      let (more, c) ← quotedRest double fuel c
      .ok (chars ++ more, c)
    match c.next? with
    | none => .error .badToken
    | some ch =>
      if !double && ch == '\'' && c.second? == some '\'' then prepend ['\''] (c.skip 2)
      else if ch == (if double then '"' else '\'') then .ok ([], c.skip 1)
      else if double && ch == '\\' then do
        let (chars, c) ← quotedEscape (c.skip 1)
        prepend chars c
      else if ch == ' ' || ch == '\t' then
        let (blanks, c) := c.takeWhile fun ch => ch == ' ' || ch == '\t'
        match c.next? with
        | some ch => if isBreak ch then prepend [] c else prepend blanks c
        | none => .error .badToken
      else match c.lineBreak? with
        | some (first, c) => do
          let (others, c) ← quotedBreaks (c.rest.length + 1) c
          prepend (joint first others) c
        | none => prepend [ch] (c.skip 1)

/-- A scalar between quotes, from its opening quote on. -/
def quoted (double : Bool) (c : Cursor) : Except Problem (List Char × Cursor) :=
  quotedRest double (c.rest.length + 1) (c.skip 1)

/-! ### Blocks -/

/-- What becomes of the ends of lines at the end of a block. -/
inductive Chomping
  /-- None is kept. -/
  | strip
  /-- That of the last line is kept. -/
  | clip
  /-- All are kept. -/
  | keep
  deriving DecidableEq, Repr

/-- What the signs behind the head of a block ask for: the chomping and the depth of indentation. -/
def blockHead (c : Cursor) : Except Problem (Chomping × Option Nat × Cursor) :=
  let sign? (ch : Option Char) : Option Chomping :=
    if ch = some '+' then some .keep else if ch = some '-' then some .strip else none
  let digit? (ch : Option Char) : Option Nat :=
    ch.bind fun ch => if ch.isDigit then some (ch.toNat - '0'.toNat) else none
  let (chomping, depth, c) : Option Chomping × Option Nat × Cursor :=
    match sign? c.next?, digit? c.next? with
    | some s, _ =>
      match digit? c.second? with
      | some d => (some s, some d, c.skip 2)
      | none => (some s, none, c.skip 1)
    | none, some d =>
      match sign? c.second? with
      | some s => (some s, some d, c.skip 2)
      | none => (none, some d, c.skip 1)
    | none, none => (none, none, c)
  if depth = some 0 ∨ !endsTerm c.next? then .error .badToken
  else
    let c := c.skipSpaces
    let c := if c.next? = some '#' then c.skipLine else c
    match c.next?, c.lineBreak? with
    | none, _ => .ok (chomping.getD .clip, depth, c)
    | some _, some (_, c) => .ok (chomping.getD .clip, depth, c)
    | some _, none => .error .badToken

/-- The ends of the empty lines before the first line of a block, the place of that line, and the
widest indentation on the way. -/
def blockIndent : Nat → Nat → Cursor → List Char × Nat × Cursor
  | 0, widest, c => ([], widest, c)
  | fuel + 1, widest, c =>
    if c.next? = some ' ' then
      let c := c.skip 1
      blockIndent fuel (max widest c.column) c
    else match c.lineBreak? with
      | none => ([], widest, c)
      | some (ch, c) =>
        let (more, widest, c) := blockIndent fuel widest c
        (ch :: more, widest, c)

/-- The place behind blanks up to a column. -/
def skipIndent (indent : Nat) (c : Cursor) : Cursor :=
  c.skip ((c.rest.take (indent - c.column)).takeWhile (· == ' ')).length

/-- The ends of the empty lines from here on, and the place of the next line in its column. -/
def blockBreaks (indent : Nat) : Nat → Cursor → List Char × Cursor
  | 0, c => ([], c)
  | fuel + 1, c =>
    let c := skipIndent indent c
    match c.lineBreak? with
    | none => ([], c)
    | some (ch, c) =>
      let (more, c) := blockBreaks indent fuel c
      (ch :: more, c)

/-- Whether a line of a block starts with a blank, and so is not folded. -/
def startsBlank (c : Cursor) : Bool := c.next? == some ' ' || c.next? == some '\t'

/-- The lines of a block from here on, behind the ends of empty lines `breaks`. -/
def blockLines (folded : Bool) (chomping : Chomping) (indent : Nat) :
    Nat → List Char → Cursor → List Char × Cursor
  | 0, _, c => ([], c)
  | fuel + 1, breaks, c =>
    let leading := !startsBlank c
    let (line, c) := c.takeWhile (!isBreak ·)
    let (stop, c) : List Char × Cursor := match c.lineBreak? with
      | some (ch, c) => ([ch], c)
      | none => ([], c)
    let (breaks', c) := blockBreaks indent (c.rest.length + 1) c
    if c.column = indent ∧ c.next?.isSome then
      -- between two lines that start with text, a folded block has a space or the empty lines
      let gap :=
        if folded && stop == ['\n'] && leading && !startsBlank c then
          if breaks' = [] then [' '] else []
        else stop
      let (more, c) := blockLines folded chomping indent fuel breaks' c
      (breaks ++ line ++ gap ++ more, c)
    else
      let tail := match chomping with
        | .strip => []
        | .clip => stop
        | .keep => stop ++ breaks'
      (breaks ++ line ++ tail, c)

/-- A block, from its head on, below a node that is indented by the given number of columns less
one. -/
def block (folded : Bool) (least : Nat) (c : Cursor) : Except Problem (List Char × Cursor) := do
  let (chomping, depth, c) ← blockHead (c.skip 1)
  let least := max least 1
  let (breaks, indent, c) : List Char × Nat × Cursor := match depth with
    | some d =>
      let indent := least + d - 1
      let (breaks, c) := blockBreaks indent (c.rest.length + 1) c
      (breaks, indent, c)
    | none =>
      let (breaks, widest, c) := blockIndent (c.rest.length + 1) 0 c
      (breaks, max least widest, c)
  if c.column = indent ∧ c.next?.isSome then
    .ok (blockLines folded chomping indent (c.rest.length + 1) breaks c)
  else .ok (if chomping = .keep then breaks else [], c)

end StarlarkLint.Yaml.Scalar
