import StarlarkLint.Text.Letter

/-!
# Arguments of a command line

Words on a command line are switches and operands.  A switch may be called by the beginning of a
long name, if no other switch begins so, and may have its value attached, behind an equals sign or,
if its name is a single character, directly.  What is attached to such a switch that takes no value
are further switches.  Behind two dashes all words are operands.  Operands have to stand together.

Words are first told apart, all of them, and then acted upon from left to right; a switch that ends
the run does so before later words can be found wrong.

## Main definitions

* `Switch`, `Usage` — what a command line may hold.
* `Word.classify` — what a word is.
* `Usage.parse` — the switches and operands of a command line.
-/

namespace StarlarkLint

/-- Why a command line does not lead to a run. -/
inductive Ending
  /-- It is wrong. -/
  | misuse
  /-- It asks for the version. -/
  | version
  /-- It asks for help. -/
  | help
  deriving DecidableEq, Repr, Inhabited

/-- What a switch does with what follows it. -/
inductive Takes
  /-- It stands alone. -/
  | nothing
  /-- It takes a value, one of those listed if any are. -/
  | value (choices : List String)
  /-- It ends the run. -/
  | ending (ending : Ending)
  deriving DecidableEq, Repr, Inhabited

/-- A switch. -/
structure Switch where
  /-- Its names with their dashes, the first of which identifies it. -/
  names : List String
  /-- What it does with what follows it. -/
  takes : Takes := .nothing
  deriving DecidableEq, Repr, Inhabited

namespace Switch

/-- The name that identifies a switch. -/
def key (s : Switch) : String := s.names.headD ""

/-- Whether a switch takes a value. -/
def takesValue (s : Switch) : Bool :=
  match s.takes with
  | .value _ => true
  | _ => false

end Switch

/-- What a command line may hold. -/
structure Usage where
  /-- The switches. -/
  switches : List Switch
  /-- Whether there may be more than one operand. -/
  manyOperands : Bool
  deriving DecidableEq, Repr, Inhabited

/-- A word on a command line. -/
inductive Word
  /-- An operand. -/
  | operand (text : String)
  /-- Two dashes. -/
  | divider
  /-- A switch under one of its names, with what is attached to it. -/
  | switch (s : Switch) (name : String) (attached : Option String)
  /-- A word that looks like a switch and is none. -/
  | stray
  deriving DecidableEq, Repr, Inhabited

namespace Word

/-- The switch of a name. -/
def named? (usage : Usage) (name : String) : Option Switch :=
  usage.switches.find? (name ∈ ·.names)

/-- A word before and behind its first equals sign. -/
def splitEquals (word : List Char) : List Char × Option (List Char) :=
  let name := word.takeWhile (· ≠ '=')
  match word.drop name.length with
  | [] => (name, none)
  | _ :: value => (name, some value)

/-- Every switch under every name that starts as given. -/
def beginning (usage : Usage) (start : List Char) (attached : Option String) : List Word :=
  usage.switches.flatMap fun s =>
    (s.names.filter fun name => start.isPrefixOf name.toList).map fun name =>
      .switch s name attached

/-- What a word that starts with a dash may stand for, apart from a full name. -/
def meanings (usage : Usage) (word : List Char) : List Word :=
  match word with
  | '-' :: '-' :: _ =>
    let (start, value) := splitEquals word
    beginning usage start (value.map String.ofList)
  | dash :: c :: behind =>
    let letter := String.ofList [dash, c]
    let cluster := match named? usage letter with
      | some s => [.switch s letter (some (String.ofList behind))]
      | none => []
    cluster ++ beginning usage word none
  | _ => []

/-- Whether the characters behind a dash spell a number. -/
def spellsNumber (body : List Char) : Bool :=
  let body := if body.getLast? = some '\n' then body.dropLast else body
  let whole := body.takeWhile Text.isDecimal
  match body.drop whole.length with
  | [] => !whole.isEmpty
  | '.' :: fraction => !fraction.isEmpty && fraction.all Text.isDecimal
  | _ => false

/-- What a word is.  A single dash, a negative number and a word with a space in it are operands
unless they call a switch. -/
def classify (usage : Usage) (word : String) : Except Ending Word :=
  match word.toList with
  | '-' :: c :: cs =>
    let chars := '-' :: c :: cs
    match named? usage word with
    | some s => .ok (.switch s word none)
    | none =>
      let (start, value) := splitEquals chars
      match named? usage (String.ofList start), value with
      | some s, some v => .ok (.switch s (String.ofList start) (some (String.ofList v)))
      | _, _ =>
        match meanings usage chars with
        | [meaning] => .ok meaning
        -- the beginning of several names is nobody's name
        | _ :: _ :: _ => .error .misuse
        | [] => .ok (if spellsNumber (c :: cs) ∨ ' ' ∈ chars then .operand word else .stray)
  | _ => .ok (.operand word)

/-- What the words of a command line are. -/
def classifyAll (usage : Usage) : List String → Except Ending (List Word)
  | [] => .ok []
  | word :: words =>
    if word = "--" then .ok (.divider :: words.map .operand)
    else do
      let first ← classify usage word
      let rest ← classifyAll usage words
      .ok (first :: rest)

/-- Whether a word may stand among operands. -/
def isPlain : Word → Bool
  | .operand _ | .divider => true
  | _ => false

/-- A word among operands as it was written. -/
def plainText : Word → String
  | .operand text => text
  | _ => "--"

end Word

/-- What has been acted upon so far. -/
structure Arguments where
  /-- The switches that were met, by their keys, with their values if they have any, last first. -/
  given : List (String × Option String) := []
  /-- The operands, once they were met. -/
  operands : Option (List String) := none
  /-- Whether words were met that have no place. -/
  stray : Bool := false
  deriving DecidableEq, Repr, Inhabited

namespace Arguments

/-- Whether a switch was met. -/
def has (a : Arguments) (key : String) : Bool := a.given.any (·.1 == key)

/-- How a switch was met last: with a value or without. -/
def last? (a : Arguments) (key : String) : Option (Option String) := a.given.lookup key

/-- Act upon a switch without a value. -/
def flag (s : Switch) (a : Arguments) : Except Ending Arguments :=
  match s.takes with
  | .ending e => .error e
  | _ => .ok { a with given := (s.key, none) :: a.given }

/-- Act upon a switch with a value.  Two dashes stand for no value at all. -/
def withValue (s : Switch) (value : String) (a : Arguments) : Except Ending Arguments :=
  match s.takes with
  | .value choices =>
    if value = "--" then .ok { a with given := (s.key, none) :: a.given }
    else if choices = [] ∨ value ∈ choices then
      .ok { a with given := (s.key, some value) :: a.given }
    else .error .misuse
  | _ => .error .misuse

/-- Act upon switches in turn. -/
def flags : List Switch → Arguments → Except Ending Arguments
  | [], a => .ok a
  | s :: rest, a => do flags rest (← flag s a)

/-- The operands among words that stand together, if the first of them is at their head: all of
them or, if there may be one only, that one.  The answer is the words that belong to them. -/
def operandWords (many : Bool) (words : List Word) : List Word :=
  if many then words
  else
    let dividers := words.takeWhile (· == .divider)
    let behind := words.drop dividers.length
    dividers ++ behind.take 1 ++ (behind.drop 1).takeWhile (· == .divider)

/-- Act upon words without switches that stand together. -/
def plain (many : Bool) (words : List Word) (a : Arguments) : Arguments :=
  if a.operands.isNone ∧ words.any (· != .divider) then
    let taken := operandWords many words
    -- only the first divider divides, a later one is an operand
    let texts := (taken.map Word.plainText).erase "--"
    { a with operands := some texts, stray := a.stray || taken.length < words.length }
  else { a with stray := true }

end Arguments

/-- Where a word with several switches leads to. -/
inductive Cluster
  /-- Each switch stands alone. -/
  | alone (switches : List Switch)
  /-- The last switch takes the value that is attached to it. -/
  | attached (switches : List Switch) (last : Switch) (value : String)
  /-- The last switch takes the next word. -/
  | awaiting (switches : List Switch) (last : Switch)
  /-- Something is attached that is neither a value nor switches. -/
  | misuse
  deriving DecidableEq, Repr, Inhabited

namespace Cluster

/-- Put a switch that stands alone in front of the others in a word. -/
def cons (s : Switch) : Cluster → Cluster
  | alone rest => alone (s :: rest)
  | attached rest last value => attached (s :: rest) last value
  | awaiting rest last => awaiting (s :: rest) last
  | misuse => misuse

/-- A switch with nothing attached. -/
def single (s : Switch) : Cluster := if s.takesValue then awaiting [] s else alone [s]

/-- The switches in a word, from one with the given characters attached to it; `long` if its name is
more than a character. -/
def ofAttached (usage : Usage) (s : Switch) (long : Bool) (behind : List Char) : Cluster :=
  if s.takesValue then attached [] s (String.ofList behind)
  else match behind with
    | [] => misuse
    | c :: cs =>
      if long then misuse
      else match Word.named? usage (String.ofList ['-', c]) with
        | none => misuse
        | some next => cons s (if cs = [] then single next else ofAttached usage next false cs)

/-- The switches in a word that calls a switch by a name. -/
def ofSwitch (usage : Usage) (s : Switch) (name : String) : Option String → Cluster
  | none => single s
  | some behind => ofAttached usage s ("--".toList.isPrefixOf name.toList) behind.toList

end Cluster

namespace Usage

/-- Act upon words from left to right. -/
def act (usage : Usage) (words : List Word) (a : Arguments) : Except Ending Arguments :=
  match words with
  | [] => .ok a
  | .stray :: rest => act usage rest { a with stray := true }
  | .switch s name attached :: rest => do
    match Cluster.ofSwitch usage s name attached with
    | .alone switches => act usage rest (← Arguments.flags switches a)
    | .attached switches last value =>
      act usage rest (← Arguments.withValue last value (← Arguments.flags switches a))
    | .awaiting switches last =>
      match rest with
      -- neither a switch nor a divider is taken for a value
      | .operand value :: behind =>
        act usage behind (← Arguments.withValue last value (← Arguments.flags switches a))
      | _ => .error .misuse
    | .misuse => .error .misuse
  | word :: rest =>
    let more := rest.takeWhile Word.isPlain
    act usage (rest.drop more.length) (a.plain usage.manyOperands (word :: more))
termination_by words.length
decreasing_by all_goals grind

/-- The switches and operands of a command line; there has to be an operand, and every word has to
have its place. -/
def parse (usage : Usage) (words : List String) : Except Ending Arguments := do
  let a ← usage.act (← Word.classifyAll usage words) {}
  if a.operands.isNone ∨ a.stray then .error .misuse else .ok a

end Usage

end StarlarkLint
