import StarlarkLint.Grammar.Error
import StarlarkLint.Grammar.Operator
import StarlarkLint.Node.Basic

/-!
# Reading syntax trees

The grammar is read by recursive descent over the list of tokens.  Every reader that succeeds leaves
a list that is shorter than the one it was given, and says so in its type; that is why the descent
ends.

* A file is a sequence of statements, separated by line feeds and semicolons.
* A statement is a load, an assignment, or a value.
* A value is built from the binary operators of `Operator.levels`, prefix operators, calls and
  members, and primaries: names, strings, numbers, lists, dictionaries, and values in parentheses.

Parentheses leave no node behind; they widen the span of the node inside them.

## Main definitions

* `Parsed` — what was read, and the tokens that are left.
* `Grammar.expression`, `Grammar.statement` — a value, and a statement.
* `SourceFile.ofTokens`, `SourceFile.parse` — a whole file.
-/

namespace StarlarkLint

/-- What was read from a list of tokens, and the tokens that are left, fewer than a bound. -/
structure Parsed (α : Type) (bound : Nat) where
  /-- What was read. -/
  value : α
  /-- The tokens that are left. -/
  rest : List Token
  /-- The tokens that are left are fewer than the bound. -/
  shorter : rest.length < bound

/-- A reader answers with what it read or with an error. -/
abbrev Reading (α : Type) (bound : Nat) := Except ParseError (Parsed α bound)

namespace Grammar

/-- A problem that was noticed at a token. -/
def failAt {α : Type} (t : Token) (problem : ParseProblem) : Except ParseError α :=
  .error { problem, token := some t }

/-- A problem at the head of a list of tokens, which may be empty. -/
def failBefore {α : Type} (ts : List Token) (problem : ParseProblem) : Except ParseError α :=
  .error { problem, token := ts.head? }

/-- The sequences in brackets. -/
inductive Sequence
  /-- The arguments of a call. -/
  | arguments
  /-- The items of a list. -/
  | items
  /-- The entries of a dictionary. -/
  | entries
  deriving DecidableEq, Repr

/-- The bracket that closes a sequence. -/
def Sequence.closer : Sequence → TokenKind
  | arguments => .rparen
  | items => .rbracket
  | entries => .rbrace

/-- Whether a token is the prefix `not` where a value of the given level should start. -/
def isNot (level : Nat) (t : Token) : Bool :=
  level = Operator.notLevel ∧ t.kind = .keyword ∧ t.value = "not"

/-- Whether an argument is passed by keyword: a name with a single `=` behind it. -/
def isKeywordArgument (name sign : Token) : Bool := name.kind = .identifier ∧ sign.kind = .equals

/-- A string, from its first literal and the literals that follow it directly: their contents are
joined. -/
def joinStrings (t : Token) (more : List Token) : Node :=
  .string ⟨t.span.start, (more.getLastD t).span.stop⟩ (String.join (t.value :: more.map (·.value)))

/-! ### Values

A reader calls itself on fewer tokens, or another reader on the same tokens.  The measures count
sixteen for each token and rank the readers below sixteen, so that both kinds of call descend. -/

mutual

/-- A value whose binary operators are of the given level or bind more tightly. -/
def expression (level : Nat) (ts : List Token) : Reading Node ts.length :=
  match ts with
  | [] => failBefore [] .unexpectedEnd
  | t :: rest =>
    if isNot level t then do
      -- the operand is of the same level, so that the prefix may be repeated
      let operand ← expression level rest
      .ok ⟨.unary ⟨t.span.start, operand.value.span.stop⟩ "not" operand.value, operand.rest,
        Nat.lt_succ_of_lt operand.shorter⟩
    else if hlevel : level < Operator.levelCount then do
      have _hlevel : level < 6 := hlevel
      let left ← expression (level + 1) (t :: rest)
      have _hleft : left.rest.length < rest.length + 1 := left.shorter
      let whole ← operation level left.value left.rest
      .ok ⟨whole.value, whole.rest,
        Nat.lt_of_le_of_lt (Nat.le_of_lt_succ whole.shorter) left.shorter⟩
    else unary (t :: rest)
termination_by 16 * ts.length + (6 - level) + 3

/-- A value that goes on behind its left operand with operators of the given level. -/
def operation (level : Nat) (left : Node) (ts : List Token) : Reading Node (ts.length + 1) :=
  match ts with
  | [] => .ok ⟨left, [], Nat.lt_succ_self _⟩
  | t :: rest =>
    match Operator.binary? t rest with
    | none => .ok ⟨left, t :: rest, Nat.lt_succ_self _⟩
    | some op =>
      if op ∈ Operator.atLevel level then do
        -- the right operand stops before another operator of this level, which goes on from `node`
        let right ← expression (level + 1) (rest.drop (Operator.width op - 1))
        have hright : right.rest.length < rest.length + 1 :=
          Nat.lt_succ_of_lt (Nat.lt_of_lt_of_le right.shorter (List.drop_sublist ..).length_le)
        let node := .binary ⟨left.span.start, right.value.span.stop⟩ op left right.value
        let whole ← operation level node right.rest
        .ok ⟨whole.value, whole.rest, Nat.lt_trans whole.shorter (Nat.succ_lt_succ hright)⟩
      else .ok ⟨left, t :: rest, Nat.lt_succ_self _⟩
termination_by 16 * ts.length

/-- A value without binary operators: signs before a primary with its calls and members. -/
def unary (ts : List Token) : Reading Node ts.length :=
  match ts with
  | [] => failBefore [] .unexpectedEnd
  | t :: rest =>
    if t.kind = .minus ∨ t.kind = .plus then do
      let operand ← unary rest
      .ok ⟨.unary ⟨t.span.start, operand.value.span.stop⟩ t.value operand.value, operand.rest,
        Nat.lt_succ_of_lt operand.shorter⟩
    else do
      let base ← primary (t :: rest)
      have _hbase : base.rest.length < rest.length + 1 := base.shorter
      let whole ← postfixes base.value base.rest
      .ok ⟨whole.value, whole.rest,
        Nat.lt_of_le_of_lt (Nat.le_of_lt_succ whole.shorter) base.shorter⟩
termination_by 16 * ts.length + 2

/-- A value with the members and calls behind it. -/
def postfixes (base : Node) (ts : List Token) : Reading Node (ts.length + 1) :=
  match ts with
  | [] => .ok ⟨base, [], Nat.lt_succ_self _⟩
  | t :: rest =>
    if t.kind = .dot then
      match rest with
      | [] => failBefore [] .memberMissing
      | name :: rest =>
        if name.kind = .identifier then do
          let node := .member ⟨base.span.start, name.span.stop⟩ base name.value
          let whole ← postfixes node rest
          .ok ⟨whole.value, whole.rest, by
            have := whole.shorter
            simp only [List.length_cons]
            omega⟩
        else failAt name .memberMissing
    else if t.kind = .lparen then do
      let args ← sequence .arguments rest
      have hargs := args.shorter
      let node := .call ⟨base.span.start, args.value.2.span.stop⟩ base args.value.1
      let whole ← postfixes node args.rest
      .ok ⟨whole.value, whole.rest, by
        have := whole.shorter
        simp only [List.length_cons]
        omega⟩
    else .ok ⟨base, t :: rest, Nat.lt_succ_self _⟩
termination_by 16 * ts.length

/-- A name, a string, a number, a list, a dictionary, or a value in parentheses. -/
def primary (ts : List Token) : Reading Node ts.length :=
  match ts with
  | [] => failBefore [] .unexpectedEnd
  | t :: rest =>
    match t.kind with
    | .identifier =>
      if t.value ∈ reservedWords then failAt t (.unsupportedExpression t.value)
      else .ok ⟨.ident t.span t.value, rest, Nat.lt_succ_self _⟩
    | .string =>
      let more := rest.takeWhile (·.kind = .string)
      .ok ⟨joinStrings t more, rest.drop more.length, by
        simp only [List.length_drop, List.length_cons]
        omega⟩
    | .number => .ok ⟨.number t.span t.value, rest, Nat.lt_succ_self _⟩
    | .lbracket => do
      let items ← sequence .items rest
      .ok ⟨.list ⟨t.span.start, items.value.2.span.stop⟩ items.value.1, items.rest,
        Nat.lt_succ_of_lt items.shorter⟩
    | .lbrace => do
      let entries ← sequence .entries rest
      .ok ⟨.dict ⟨t.span.start, entries.value.2.span.stop⟩ entries.value.1, entries.rest,
        Nat.lt_succ_of_lt entries.shorter⟩
    | .lparen => do
      let inner ← expression 0 rest
      have hinner := inner.shorter
      match _hrest : inner.rest with
      | [] => failBefore [] .parenthesisUnclosed
      | close :: rest =>
        if close.kind = .rparen then
          .ok ⟨inner.value.withSpan ⟨t.span.start, close.span.stop⟩, rest, by
            rw [_hrest] at hinner
            simp only [List.length_cons] at hinner ⊢
            omega⟩
        else failAt close .parenthesisUnclosed
    | _ => failAt t (.unexpectedToken t.value)
termination_by 16 * ts.length + 1

/-- An argument: a value, one that is passed by keyword, or one behind stars. -/
def argument (ts : List Token) : Reading Node ts.length :=
  match ts with
  | t :: rest =>
    if t.kind = .star ∨ t.kind = .doubleStar then do
      let operand ← expression 0 rest
      .ok ⟨.unary ⟨t.span.start, operand.value.span.stop⟩ t.value operand.value, operand.rest,
        Nat.lt_succ_of_lt operand.shorter⟩
    else match rest with
    | sign :: behind =>
      if isKeywordArgument t sign then do
        -- any name will do here, a reserved word too
        let value ← expression 0 behind
        .ok ⟨.assign ⟨t.span.start, value.value.span.stop⟩ (.ident t.span t.value) "=" value.value,
          value.rest, Nat.lt_succ_of_lt (Nat.lt_succ_of_lt value.shorter)⟩
      else expression 0 (t :: sign :: behind)
    | [] => expression 0 [t]
  | [] => expression 0 []
termination_by 16 * ts.length + 10

/-- A key, a colon, and a value. -/
def entry (ts : List Token) : Reading Node ts.length := do
  let key ← expression 0 ts
  have hkey := key.shorter
  match _hrest : key.rest with
  | [] => failBefore [] .colonMissing
  | colon :: rest =>
    if colon.kind = .colon then do
      have hrest : rest.length + 1 < ts.length := by rw [_hrest] at hkey; exact hkey
      let value ← expression 0 rest
      .ok ⟨.entry ⟨key.value.span.start, value.value.span.stop⟩ key.value value.value, value.rest,
        by have := value.shorter; omega⟩
    else failAt colon .colonMissing
termination_by 16 * ts.length + 10

/-- One member of a sequence. -/
def item (kind : Sequence) (ts : List Token) : Reading Node ts.length :=
  match kind with
  | .arguments => argument ts
  | .items => expression 0 ts
  | .entries => entry ts
termination_by 16 * ts.length + 11

/-- The members of a sequence and its closing bracket; a comma may follow the last member. -/
def sequence (kind : Sequence) (ts : List Token) : Reading (List Node × Token) ts.length :=
  match ts with
  | [] => failBefore [] (.sequenceUnclosed kind.closer)
  | t :: rest =>
    if t.kind = kind.closer then .ok ⟨([], t), rest, Nat.lt_succ_self _⟩
    else if t.kind = .endOfFile then failBefore [] (.sequenceUnclosed kind.closer)
    else do
      let first ← item kind (t :: rest)
      have hfirst := first.shorter
      match _hrest : first.rest with
      | [] => failBefore [] (.endsBehindItem kind.closer)
      | u :: behind =>
        have hbehind : behind.length + 1 < rest.length + 1 := by
          rw [_hrest] at hfirst
          exact hfirst
        if u.kind = .comma then do
          -- the closing bracket may follow at once
          let more ← sequence kind behind
          .ok ⟨(first.value :: more.value.1, more.value.2), more.rest,
            Nat.lt_trans more.shorter (Nat.lt_of_succ_lt hbehind)⟩
        else if u.kind = kind.closer then
          .ok ⟨([first.value], u), behind, Nat.lt_of_succ_lt hbehind⟩
        else failAt u (.separatorMissing kind.closer u.value)
termination_by 16 * ts.length + 12

end

/-! ### Statements -/

/-- The arguments of a load statement and its closing parenthesis, from behind the module on. -/
def loadArguments (ts : List Token) : Reading (List Node × Token) ts.length :=
  match ts with
  | [] => failBefore [] .loadUnclosed
  | t :: rest =>
    if t.kind = .rparen then .ok ⟨([], t), rest, Nat.lt_succ_self _⟩
    else if t.kind = .comma then
      match rest with
      | close :: behind =>
        if close.kind = .rparen then
          .ok ⟨([], close), behind, Nat.lt_succ_of_lt (Nat.lt_succ_self _)⟩
        else do
          let first ← argument (close :: behind)
          have hfirst := first.shorter
          let more ← loadArguments first.rest
          .ok ⟨(first.value :: more.value.1, more.value.2), more.rest,
            Nat.lt_succ_of_lt (Nat.lt_trans more.shorter hfirst)⟩
      | [] => failBefore [] .unexpectedEnd
    else failAt t .loadUnclosed
termination_by ts.length
decreasing_by
  simp only [List.length_cons] at *
  omega

/-- A load statement, from behind its opening parenthesis. -/
def load (start : Position) (ts : List Token) : Reading Node ts.length :=
  match ts with
  | [] => failBefore [] .moduleMissing
  | module :: rest =>
    if module.kind = .string then do
      let args ← loadArguments rest
      -- strings that follow the module directly are not joined to it
      .ok ⟨.load ⟨start, args.value.2.span.stop⟩ (.string module.span module.value) args.value.1,
        args.rest, Nat.lt_succ_of_lt args.shorter⟩
    else failAt module .moduleMissing

/-- A value, or an assignment to one. -/
def assignment (ts : List Token) : Reading Node ts.length := do
  let target ← expression 0 ts
  have htarget := target.shorter
  match _hrest : target.rest with
  | [] => .ok ⟨target.value, [], by simpa [_hrest] using htarget⟩
  | sign :: rest =>
    if sign.kind = .equals ∨ sign.kind = .plusEquals then do
      have hrest : rest.length + 1 < ts.length := by rw [_hrest] at htarget; exact htarget
      let value ← expression 0 rest
      .ok ⟨.assign ⟨target.value.span.start, value.value.span.stop⟩ target.value sign.value
        value.value, value.rest, by have := value.shorter; omega⟩
    else .ok ⟨target.value, sign :: rest, by simpa [_hrest] using htarget⟩

/-- A statement. -/
def statement (ts : List Token) : Reading Node ts.length :=
  match ts with
  | [] => assignment []
  | t :: rest =>
    if t.kind = .identifier ∧ t.value ∈ reservedWords then
      failAt t (.unsupportedStatement t.value)
    else match rest with
    | [] => assignment [t]
    | next :: behind =>
      -- anywhere else `load` is a name like any other
      if t.kind = .identifier ∧ t.value = "load" ∧ next.kind = .lparen then do
        let node ← load t.span.start behind
        .ok ⟨node.value, node.rest, Nat.lt_succ_of_lt (Nat.lt_succ_of_lt node.shorter)⟩
      else assignment (t :: next :: behind)

/-- Whether a token may stand behind a statement. -/
def endsStatement (t : Token) : Bool :=
  t.kind = .newline ∨ t.kind = .semicolon ∨ t.kind = .endOfFile

/-- Refuse a statement that does not end here. -/
def checkEnd : List Token → Except ParseError Unit
  | [] => .ok ()
  | t :: _ => if endsStatement t then .ok () else failAt t (.unexpectedAfterStatement t.value)

/-- The statements of a file, and the mark of its end if there is one. -/
def statements (ts : List Token) : Except ParseError (List Node × Option Token) :=
  match ts with
  | [] => .ok ([], none)
  | t :: rest =>
    if t.kind = .newline ∨ t.kind = .semicolon then statements rest
    else if t.kind = .endOfFile then .ok ([], some t)
    else do
      let first ← statement (t :: rest)
      have _hfirst : first.rest.length < rest.length + 1 := first.shorter
      checkEnd first.rest
      let (more, stop) ← statements first.rest
      .ok (first.value :: more, stop)
termination_by ts.length

end Grammar

namespace SourceFile

/-- The file that a list of tokens spells. -/
def ofTokens (path : String) (dialect : Dialect) (ts : List Token) :
    Except ParseError SourceFile := do
  let (statements, stop) ← Grammar.statements ts
  let last := (stop.map (·.span.stop)).getD .origin
  .ok { span := ⟨.origin, last⟩, path, dialect, statements }

/-- The file that a text spells.  Without a dialect, the path tells it. -/
def parse (source : String) (path : String := "<unknown>") (dialect : Option Dialect := none) :
    Except SyntaxError SourceFile := do
  let ts ← (tokens source).mapError .lexical
  (ofTokens path (dialect.getD (.ofPath (.parse path))) ts).mapError .grammatical

end SourceFile

end StarlarkLint
