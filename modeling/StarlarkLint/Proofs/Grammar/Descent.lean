import StarlarkLint.Proofs.Grammar.Reading

/-!
# The descent with a cursor

The readers of the grammar hand on the tokens that are left, and their types say that these get
fewer.  Here the same descent is written down without that: a cursor moves over all the tokens, and
the loops go round as long as their conditions let them.  Whether the descent ends is then a
question.  A reader is told how deep the calls below it may be nested, where a round of a loop
counts as a call from the round before; a run that goes deeper has no outcome, and a descent that
does not end has none whatever the depth.

The calls of four readers are recorded with the position of the cursor when the call was made and
the position when it was done.  A call that fails leaves no record.

## Main definitions

* `Descent.Session` — the position of the cursor, and the calls so far.
* `Descent.Run`, `Descent.Run.outcome` — what is done with a cursor, and what it comes to.
* `Descent.recorded` — a run that is recorded.
* `Descent.expression`, …, `Descent.file` — the readers.
-/

namespace StarlarkLint.Descent

open Grammar (Sequence)

/-- The readers whose calls are recorded. -/
inductive Reader
  /-- A statement. -/
  | statement
  /-- A value of a level. -/
  | expression (level : Nat)
  /-- An argument. -/
  | argument
  /-- An entry of a dictionary. -/
  | entry
  deriving DecidableEq, Repr

/-- The reader as the grammar has it. -/
def Reader.read : Reader → (us : List Token) → Reading Node us.length
  | statement => Grammar.statement
  | expression level => Grammar.expression level
  | argument => Grammar.argument
  | entry => Grammar.entry

/-- A call that succeeded. -/
structure Call where
  /-- Which reader was called. -/
  reader : Reader
  /-- The position of the cursor that the call found. -/
  found : Nat
  /-- The position of the cursor that the call left. -/
  left : Nat
  deriving DecidableEq, Repr

/-- A cursor and what it has been used for. -/
structure Session where
  /-- The number of tokens behind the cursor. -/
  position : Nat := 0
  /-- The recorded calls, the last one to end first. -/
  calls : List Call := []
  deriving DecidableEq, Repr

/-- What is done with a cursor: it yields a value or is refused, and moves the cursor, also when it
is refused; or it does not end within its depth. -/
abbrev Run (α : Type) := ExceptT ParseError (StateT Session Option) α

/-- What a run comes to: an answer and the session it leaves, or nothing if it does not end. -/
def Run.outcome {α : Type} (run : Run α) (s : Session) : Option (Except ParseError α × Session) :=
  StateT.run (ExceptT.run run) s

/-- A run that goes deeper than it may. -/
def unfinished {α : Type} : Run α := ExceptT.mk fun _ => none

/-- Give up, for a problem at a token or at the end. -/
def refuse {α : Type} (token : Option Token) (problem : ParseProblem) : Run α :=
  throw { problem, token }

/-- Record a run as a call of a reader, if it succeeds. -/
def recorded {α : Type} (reader : Reader) (run : Run α) : Run α := do
  let found := (← get).position
  let value ← run
  modify fun s => { s with calls := ⟨reader, found, s.position⟩ :: s.calls }
  return value

section

variable (ts : List Token)

/-! ### The cursor -/

/-- The session behind the next token, if there is one. -/
def Session.step (s : Session) : Session :=
  if s.position < ts.length then { s with position := s.position + 1 } else s

/-- The token at the cursor. -/
def current : Run (Option Token) := return ts[(← get).position]?

/-- The token at the cursor, if it passes a test. -/
def currentIf (p : Token → Bool) : Run (Option Token) := return (← current ts).filter p

/-- The token behind the one at the cursor. -/
def next : Run (Option Token) := return ts[(← get).position + 1]?

/-- The token at the cursor, if it and the token behind it pass a test. -/
def currentBefore (p : Token → Token → Bool) : Run (Option Token) := do
  let following ← next ts
  currentIf ts fun t => following.any (p t)

/-- Step over the token at the cursor, if there is one. -/
def advance : Run Unit := modify (Session.step ts)

/-- Step over a token of the given kind. -/
def expect (kind : TokenKind) (problem : ParseProblem) : Run Token := do
  match ← current ts with
  | none => refuse none problem
  | some t =>
    if t.kind = kind then do
      advance ts
      return t
    else refuse (some t) problem

/-- The binary operator at the cursor, if it is of the given level. -/
def operator (level : Nat) : Run (Option String) := do
  let following ← next ts
  return ((← current ts).bind fun t => Operator.binary? t following.toList).filter
    (· ∈ Operator.atLevel level)

/-- Step over the tokens of a binary operator. -/
def advanceOver (op : String) : Run Unit := do
  advance ts
  if op = "not in" then advance ts

/-- The strings at the cursor. -/
def strings (depth : Nat) : Run (List Token) :=
  match depth with
  | 0 => unfinished
  | depth + 1 => do
    match ← currentIf ts (·.kind = .string) with
    | none => return []
    | some t => do
      advance ts
      return t :: (← strings depth)

/-! ### Values -/

mutual

/-- A value whose binary operators are of the given level or bind more tightly. -/
def expression (depth level : Nat) : Run Node :=
  match depth with
  | 0 => unfinished
  | depth + 1 => recorded (.expression level) do
    match ← currentIf ts (Grammar.isNot level) with
    | some t => do
      advance ts
      let operand ← expression depth level
      return .unary ⟨t.span.start, operand.span.stop⟩ "not" operand
    | none =>
      if level < Operator.levelCount then do
        let left ← expression depth (level + 1)
        operation depth level left
      else unary depth

/-- A value that goes on behind its left operand with operators of the given level. -/
def operation (depth level : Nat) (left : Node) : Run Node :=
  match depth with
  | 0 => unfinished
  | depth + 1 => do
    match ← operator ts level with
    | none => return left
    | some op => do
      advanceOver ts op
      let right ← expression depth (level + 1)
      operation depth level (.binary ⟨left.span.start, right.span.stop⟩ op left right)

/-- A value without binary operators. -/
def unary (depth : Nat) : Run Node :=
  match depth with
  | 0 => unfinished
  | depth + 1 => do
    match ← currentIf ts fun t => t.kind = .minus ∨ t.kind = .plus with
    | some t => do
      advance ts
      let operand ← unary depth
      return .unary ⟨t.span.start, operand.span.stop⟩ t.value operand
    | none => do
      let base ← primary depth
      postfixes depth base

/-- A value with the members and calls behind it. -/
def postfixes (depth : Nat) (base : Node) : Run Node :=
  match depth with
  | 0 => unfinished
  | depth + 1 => do
    match ← current ts with
    | none => return base
    | some t =>
      if t.kind = .dot then do
        advance ts
        let name ← expect ts .identifier .memberMissing
        postfixes depth (.member ⟨base.span.start, name.span.stop⟩ base name.value)
      else if t.kind = .lparen then do
        advance ts
        let args ← sequence depth .arguments
        postfixes depth (.call ⟨base.span.start, args.2.span.stop⟩ base args.1)
      else return base

/-- A name, a string, a number, a list, a dictionary, or a value in parentheses. -/
def primary (depth : Nat) : Run Node :=
  match depth with
  | 0 => unfinished
  | depth + 1 => do
    match ← current ts with
    | none => refuse none .unexpectedEnd
    | some t =>
      match t.kind with
      | .identifier =>
        if t.value ∈ reservedWords then refuse (some t) (.unsupportedExpression t.value)
        else do
          advance ts
          return .ident t.span t.value
      | .string => do
        advance ts
        return Grammar.joinStrings t (← strings ts depth)
      | .number => do
        advance ts
        return .number t.span t.value
      | .lbracket => do
        advance ts
        let items ← sequence depth .items
        return .list ⟨t.span.start, items.2.span.stop⟩ items.1
      | .lbrace => do
        advance ts
        let entries ← sequence depth .entries
        return .dict ⟨t.span.start, entries.2.span.stop⟩ entries.1
      | .lparen => do
        advance ts
        let inner ← expression depth 0
        let close ← expect ts .rparen .parenthesisUnclosed
        return inner.withSpan ⟨t.span.start, close.span.stop⟩
      | _ => refuse (some t) (.unexpectedToken t.value)

/-- An argument. -/
def argument (depth : Nat) : Run Node :=
  match depth with
  | 0 => unfinished
  | depth + 1 => recorded .argument do
    match ← currentIf ts fun t => t.kind = .star ∨ t.kind = .doubleStar with
    | some t => do
      advance ts
      let operand ← expression depth 0
      return .unary ⟨t.span.start, operand.span.stop⟩ t.value operand
    | none =>
      match ← currentBefore ts Grammar.isKeywordArgument with
      | some name => do
        advance ts
        advance ts
        let value ← expression depth 0
        return .assign ⟨name.span.start, value.span.stop⟩ (.ident name.span name.value) "=" value
      | none => expression depth 0

/-- A key, a colon, and a value. -/
def entry (depth : Nat) : Run Node :=
  match depth with
  | 0 => unfinished
  | depth + 1 => recorded .entry do
    let key ← expression depth 0
    let _ ← expect ts .colon .colonMissing
    let value ← expression depth 0
    return .entry ⟨key.span.start, value.span.stop⟩ key value

/-- One member of a sequence. -/
def item (depth : Nat) (kind : Sequence) : Run Node :=
  match depth with
  | 0 => unfinished
  | depth + 1 =>
    match kind with
    | .arguments => argument depth
    | .items => expression depth 0
    | .entries => entry depth

/-- The members of a sequence and its closing bracket. -/
def sequence (depth : Nat) (kind : Sequence) : Run (List Node × Token) :=
  match depth with
  | 0 => unfinished
  | depth + 1 => do
    match ← current ts with
    | none => refuse none (.sequenceUnclosed kind.closer)
    | some t =>
      if t.kind = kind.closer then do
        advance ts
        return ([], t)
      else if t.kind = .endOfFile then refuse none (.sequenceUnclosed kind.closer)
      else do
        let first ← item depth kind
        match ← current ts with
        | none => refuse none (.endsBehindItem kind.closer)
        | some u =>
          if u.kind = .comma then do
            advance ts
            let more ← sequence depth kind
            return (first :: more.1, more.2)
          else if u.kind = kind.closer then do
            advance ts
            return ([first], u)
          else refuse (some u) (.separatorMissing kind.closer u.value)

end

/-! ### Statements -/

/-- The arguments of a load statement and its closing parenthesis. -/
def loadArguments (depth : Nat) : Run (List Node × Token) :=
  match depth with
  | 0 => unfinished
  | depth + 1 => do
    match ← currentIf ts (·.kind = .comma) with
    | none => return ([], ← expect ts .rparen .loadUnclosed)
    | some _ => do
      advance ts
      match ← currentIf ts (·.kind = .rparen) with
      | some _ => return ([], ← expect ts .rparen .loadUnclosed)
      | none => do
        let first ← argument ts depth
        let more ← loadArguments depth
        return (first :: more.1, more.2)

/-- A load statement, from behind its opening parenthesis. -/
def load (depth : Nat) (start : Position) : Run Node := do
  let module ← expect ts .string .moduleMissing
  let args ← loadArguments ts depth
  return .load ⟨start, args.2.span.stop⟩ (.string module.span module.value) args.1

/-- A value, or an assignment to one. -/
def assignment (depth : Nat) : Run Node := do
  let target ← expression ts depth 0
  match ← currentIf ts fun sign => sign.kind = .equals ∨ sign.kind = .plusEquals with
  | none => return target
  | some sign => do
    advance ts
    let value ← expression ts depth 0
    return .assign ⟨target.span.start, value.span.stop⟩ target sign.value value

/-- A statement. -/
def statement (depth : Nat) : Run Node := recorded .statement do
  match ← currentIf ts fun t => t.kind = .identifier ∧ t.value ∈ reservedWords with
  | some t => refuse (some t) (.unsupportedStatement t.value)
  | none =>
    match ← currentBefore ts fun t following =>
        t.kind = .identifier ∧ t.value = "load" ∧ following.kind = .lparen with
    | some t => do
      advance ts
      advance ts
      load ts depth t.span.start
    | none => assignment ts depth

/-- The reader as the descent has it. -/
def Reader.run (depth : Nat) : Reader → Run Node
  | .statement => Descent.statement ts depth
  | .expression level => Descent.expression ts depth level
  | .argument => Descent.argument ts depth
  | .entry => Descent.entry ts depth

/-! ### Files -/

/-- The statements of a file, and the mark of its end if there is one. -/
def statements (depth : Nat) : Run (List Node × Option Token) :=
  match depth with
  | 0 => unfinished
  | depth + 1 => do
    match ← current ts with
    | none => return ([], none)
    | some t =>
      if t.kind = .newline ∨ t.kind = .semicolon then do
        advance ts
        statements depth
      else if t.kind = .endOfFile then return ([], some t)
      else do
        let first ← statement ts depth
        match ← currentIf ts (!Grammar.endsStatement ·) with
        | some u => refuse (some u) (.unexpectedAfterStatement u.value)
        | none => do
          let more ← statements depth
          return (first :: more.1, more.2)

/-- The file that the tokens spell. -/
def file (depth : Nat) (path : String) (dialect : Dialect) : Run SourceFile := do
  let parts ← statements ts depth
  let last := (parts.2.map (·.span.stop)).getD .origin
  return { span := ⟨.origin, last⟩, path, dialect, statements := parts.1 }

end

end StarlarkLint.Descent
