import StarlarkLint.Grammar.Operator
import StarlarkLint.Layout.Literal
import StarlarkLint.Node.Basic

/-!
# Laying out syntax trees

A file is written one statement after another, with blank lines between statements unless both are
loads.  Calls that pass arguments by keyword are broken one argument to a line, except below top
level where the call fits the line; short lists of plain values stay on one line.  Brackets are
written only around an operand that binds more loosely than its place asks for.

A tree from the parser always has a layout.  A tree made by other means may have none: a slot that
needs a node is empty, a file stands inside a file, or an operator is unknown.

## Main definitions

* `LayoutOptions` — what the layout can be asked for.
* `Strength.ofNode` — how tightly a node binds.
* `Node.render`, `SourceFile.render` — the text of a node and of a file.
-/

namespace StarlarkLint

/-- What the layout can be asked for. -/
structure LayoutOptions where
  /-- One step of indentation. -/
  indent : String := "    "
  /-- The most plain values that a list on one line holds. -/
  inlineItems : Int := 3
  /-- The number of blank lines between statements; below zero there are none. -/
  blankLines : Int := 1
  /-- The length up to which a call below top level stays on one line. -/
  lineLength : Int := 79
  deriving DecidableEq, Repr, Inhabited

/-- Why a tree has no layout. -/
inductive LayoutError
  /-- A slot that needs a node is empty. -/
  | emptySlot
  /-- A file stands inside a file. -/
  | nestedFile
  /-- A binary operator is not one of the language. -/
  | unknownOperator (op : String)
  deriving DecidableEq, Repr, Inhabited

/-- The reason in words. -/
def LayoutError.message : LayoutError → String
  | emptySlot => "Cannot format NoneType"
  | nestedFile => "Cannot format File"
  | unknownOperator op => Text.quoted op

/-! ### Binding strength -/

namespace Strength

/-- The strength of the prefix `not`, between `and` and the comparisons. -/
def ofNot : Nat := Operator.notLevel

/-- The strength of a sign, above every binary operator. -/
def ofSign : Nat := Operator.levelCount + 1

/-- The strength of a node that needs no brackets anywhere. -/
def ofAtom : Nat := ofSign + 1

/-- The strength of a binary operator: its level, with one left free for the prefix `not`. -/
def ofBinary? (op : String) : Option Nat :=
  (Operator.levels.findIdx? (op ∈ ·)).map fun level =>
    if level < Operator.notLevel then level else level + 1

/-- The strength of a prefix operator; stars bind most loosely. -/
def ofUnary (op : String) : Nat :=
  if op = "not" then ofNot else if op = "-" ∨ op = "+" then ofSign else 0

/-- How tightly a node binds. -/
def ofNode : Node → Nat
  | .binary _ op _ _ => (ofBinary? op).getD 0
  | .unary _ op _ => ofUnary op
  | _ => ofAtom

end Strength

/-! ### Text of nodes -/

/-- Put brackets around the text of a node that binds more loosely than asked for. -/
def bracketed (least : Nat) (node : Node) (text : String) : String :=
  if Strength.ofNode node < least then "(" ++ text ++ ")" else text

/-- A node that a list on one line may hold. -/
def Node.isPlain : Node → Bool
  | .string _ _ | .number _ _ | .ident _ _ => true
  | _ => false

/-- An assignment, or an argument that is passed by keyword. -/
def Node.isAssign : Node → Bool
  | .assign .. => true
  | _ => false

/-- A load statement. -/
def Node.isLoad : Node → Bool
  | .load .. => true
  | _ => false

namespace LayoutOptions

/-- The indentation of a level. -/
def indentation (options : LayoutOptions) (level : Nat) : String :=
  String.join (List.replicate level options.indent)

/-- A sequence in brackets, one item to a line with a comma behind it. -/
def stacked (options : LayoutOptions) (level : Nat) (opener closer : String)
    (items : List String) : String :=
  if items = [] then opener ++ closer
  else
    let lines := items.map fun item => options.indentation (level + 1) ++ item ++ ","
    "\n".intercalate (opener :: lines ++ [options.indentation level ++ closer])

/-- A list stays on one line when it is short and its items are plain. -/
def staysInline (options : LayoutOptions) (items : List Node) : Bool :=
  items.all Node.isPlain ∧ (items.length : Int) ≤ options.inlineItems

/-- Whether a call stays on the one line given: not if that line is broken, and not if arguments are
passed by keyword, except below top level where the line is short enough. -/
def keepsLine (options : LayoutOptions) (level : Nat) (args : List Node) (line : String) : Bool :=
  (!args.any Node.isAssign ∨ 0 < level ∧ (line.length : Int) ≤ options.lineLength)
    ∧ '\n' ∉ line.toList

end LayoutOptions

namespace Node

mutual

/-- The text of a node at a level of indentation. -/
def render (options : LayoutOptions) (level : Nat) : Node → Except LayoutError String
  | hole => .error .emptySlot
  | ident _ name => .ok name
  | string _ value => .ok (Literal.written value)
  | number _ value => .ok value
  | member _ base name => do
    let text ← render options level base
    .ok (bracketed Strength.ofAtom base text ++ "." ++ name)
  | unary _ op operand => do
    let text ← render options level operand
    let gap := if op = "not" then " " else ""
    .ok (op ++ gap ++ bracketed (Strength.ofUnary op) operand text)
  | binary _ op left right =>
    -- an unknown operator is noticed before anything is wrong with its operands
    match Strength.ofBinary? op with
    | none => .error (.unknownOperator op)
    | some strength => do
      let x ← render options level left
      let y ← render options level right
      -- operators associate to the left, so that the right operand has to bind more tightly
      .ok (bracketed strength left x ++ " " ++ op ++ " " ++ bracketed (strength + 1) right y)
  | assign _ target op value => do
    let x ← render options level target
    let y ← render options level value
    .ok (x ++ " " ++ op ++ " " ++ y)
  | entry _ key value => do
    let x ← render options level key
    let y ← render options level value
    .ok (x ++ ": " ++ y)
  | list _ items =>
    if options.staysInline items then do
      let texts ← renderAll options level items
      .ok ("[" ++ ", ".intercalate texts ++ "]")
    else do
      let texts ← renderAll options (level + 1) items
      .ok (options.stacked level "[" "]" texts)
  | dict _ entries => do
    let texts ← renderAll options (level + 1) entries
    .ok (options.stacked level "\x7b" "\x7d" texts)
  | call _ callee args => do
    let name ← render options level callee
    let texts ← renderAll options level args
    let callee' := bracketed Strength.ofAtom callee name
    let line := callee' ++ "(" ++ ", ".intercalate texts ++ ")"
    if options.keepsLine level args line then .ok line
    else do
      -- one level deeper the arguments may be laid out otherwise
      let below ← renderAll options (level + 1) args
      .ok (callee' ++ options.stacked level "(" ")" below)
  | load _ module args => do
    let name ← render options level module
    let texts ← renderAll options level args
    .ok ("load(" ++ ", ".intercalate (name :: texts) ++ ")")
  | file .. => .error .nestedFile

/-- The texts of the nodes in a sequence. -/
def renderAll (options : LayoutOptions) (level : Nat) :
    List Node → Except LayoutError (List String)
  | [] => .ok []
  | node :: nodes => do
    let text ← render options level node
    let texts ← renderAll options level nodes
    .ok (text :: texts)

end

end Node

/-! ### Text of files -/

/-- The lines between two statements. -/
def LayoutOptions.between (options : LayoutOptions) (previous next : Node) : List String :=
  if previous.isLoad ∧ next.isLoad then [] else List.replicate options.blankLines.toNat ""

/-- The lines behind a statement, given the statements that follow it and their texts. -/
def LayoutOptions.linesAfter (options : LayoutOptions) (previous : Node) :
    List (Node × String) → List String
  | [] => []
  | (next, text) :: rest =>
    options.between previous next ++ text :: linesAfter options next rest

/-- The text of a file; a file without statements is empty. -/
def SourceFile.render (f : SourceFile) (options : LayoutOptions := {}) :
    Except LayoutError String := do
  let texts ← Node.renderAll options 0 f.statements
  match f.statements.zip texts with
  | [] => .ok ""
  | (first, text) :: rest =>
    .ok ("\n".intercalate (text :: options.linesAfter first rest) ++ "\n")

end StarlarkLint
