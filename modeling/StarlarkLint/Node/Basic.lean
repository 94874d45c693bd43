import StarlarkLint.Dialect
import StarlarkLint.Position

/-!
# Syntax trees

The nodes of a build description.  Each carries the span it was read from.  A slot for a single node
may be empty, which is written `hole`; a slot for a sequence holds a list.  Operators are kept as
they are spelled, so that a tree can hold one that the language does not have.  With what quotes a
string was written is not kept.

## Main definitions

* `Node` — the nodes.
* `Node.span`, `Node.withSpan`, `Node.children` — a node's place and the nodes directly below it.
* `SourceFile` — a whole file: its path, its dialect and its statements.
-/

namespace StarlarkLint

/-- A node of a syntax tree. -/
inductive Node
  /-- An empty slot. -/
  | hole
  /-- A name. -/
  | ident (span : Span) (name : String)
  /-- A string, given by its content. -/
  | string (span : Span) (value : String)
  /-- A number, as it is spelled. -/
  | number (span : Span) (value : String)
  /-- A list. -/
  | list (span : Span) (items : List Node)
  /-- A dictionary. -/
  | dict (span : Span) (entries : List Node)
  /-- A key and its value in a dictionary. -/
  | entry (span : Span) (key value : Node)
  /-- A member of a value: `base.name`. -/
  | member (span : Span) (base : Node) (name : String)
  /-- A call. -/
  | call (span : Span) (callee : Node) (args : List Node)
  /-- A sign, a `not`, or the stars of an argument, before an operand. -/
  | unary (span : Span) (op : String) (operand : Node)
  /-- An operator between two operands. -/
  | binary (span : Span) (op : String) (left right : Node)
  /-- An assignment, or an argument that is passed by keyword. -/
  | assign (span : Span) (target : Node) (op : String) (value : Node)
  /-- A load statement. -/
  | load (span : Span) (module : Node) (args : List Node)
  /-- A whole file. -/
  | file (span : Span) (path : String) (dialect : Dialect) (statements : List Node)
  deriving Repr, Inhabited, BEq

namespace Node

/-- The span of a node; an empty slot has the zero span. -/
def span : Node → Span
  | hole => {}
  | ident s _ | string s _ | number s _ | list s _ | dict s _ | entry s _ _ | member s _ _
  | call s _ _ | unary s _ _ | binary s _ _ _ | assign s _ _ _ | load s _ _ | file s _ _ _ => s

/-- The node with another span. -/
def withSpan (s : Span) : Node → Node
  | hole => hole
  | ident _ name => ident s name
  | string _ value => string s value
  | number _ value => number s value
  | list _ items => list s items
  | dict _ entries => dict s entries
  | entry _ key value => entry s key value
  | member _ base name => member s base name
  | call _ callee args => call s callee args
  | unary _ op operand => unary s op operand
  | binary _ op left right => binary s op left right
  | assign _ target op value => assign s target op value
  | load _ module args => load s module args
  | file _ path dialect statements => file s path dialect statements

/-- Whether a slot is empty. -/
def isHole : Node → Bool
  | hole => true
  | _ => false

/-- The nodes directly below a node, in source order, empty slots left out. -/
def children (node : Node) : List Node :=
  let slots : List Node := match node with
    | hole | ident _ _ | string _ _ | number _ _ => []
    | list _ items => items
    | dict _ entries => entries
    | entry _ key value => [key, value]
    | member _ base _ => [base]
    | call _ callee args => callee :: args
    | unary _ _ operand => [operand]
    | binary _ _ left right => [left, right]
    | assign _ target _ value => [target, value]
    | load _ module args => module :: args
    | file _ _ _ statements => statements
  slots.filter (!·.isHole)

/-- The node is a call of the given name. -/
def isCallOf (name : String) : Node → Bool
  | call _ (ident _ callee) _ => callee == name
  | _ => false

end Node

/-- A file that was read. -/
structure SourceFile where
  /-- The text that was read. -/
  span : Span := {}
  /-- The path that findings name. -/
  path : String := "<unknown>"
  /-- The role of the file. -/
  dialect : Dialect := .generic
  /-- The statements at top level. -/
  statements : List Node := []
  deriving Repr, Inhabited, BEq

namespace SourceFile

/-- The file as the root of a tree. -/
def node (f : SourceFile) : Node := .file f.span f.path f.dialect f.statements

/-- The file that a tree is the tree of. -/
def ofNode? : Node → Option SourceFile
  | .file span path dialect statements => some { span, path, dialect, statements }
  | _ => none

@[simp] theorem ofNode?_node (f : SourceFile) : ofNode? f.node = some f := rfl

end SourceFile

end StarlarkLint
