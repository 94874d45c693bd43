import StarlarkLint.Node.Basic
import StarlarkLint.Text.Quoted

/-!
# Showing nodes

A short form of a node for messages and for inspection.  Sequences are summed up by their length,
except in lists; an empty slot shows as `None`.

## Main definitions

* `Node.shown` — the short form.
-/

namespace StarlarkLint

/-- A position as it is shown inside a node. -/
def Position.shown (p : Position) : String :=
  "Position(line=" ++ toString p.line ++ ", column=" ++ toString p.column ++ ")"

namespace Node

mutual

/-- The short form of a node. -/
def shown : Node → String
  | hole => "None"
  | ident _ name => "Ident(" ++ name ++ ")"
  | string _ value => "String(" ++ Text.quoted value ++ ")"
  | number _ value => "Number(" ++ value ++ ")"
  | list _ items => "List([" ++ ", ".intercalate (shownAll items) ++ "])"
  | dict _ entries => "Dict(" ++ toString entries.length ++ " entries)"
  | entry s key value =>
    "KeyValueExpr(start=" ++ s.start.shown ++ ", end=" ++ s.stop.shown ++ ", key=" ++ shown key
      ++ ", value=" ++ shown value ++ ")"
  | member _ base name => "Dot(" ++ shown base ++ "." ++ name ++ ")"
  | call _ callee args => "Call(" ++ shown callee ++ ", " ++ toString args.length ++ " args)"
  | unary _ op operand => "Unary(" ++ op ++ shown operand ++ ")"
  | binary _ op left right => "Binary(" ++ shown left ++ " " ++ op ++ " " ++ shown right ++ ")"
  | assign _ target op value =>
    "Assign(" ++ shown target ++ " " ++ op ++ " " ++ shown value ++ ")"
  | load _ module _ => "Load(" ++ shown module ++ ")"
  | file _ path dialect statements =>
    "File(" ++ path ++ ", " ++ dialect.name ++ ", " ++ toString statements.length ++ " statements)"

/-- The short forms of the nodes in a sequence. -/
def shownAll : List Node → List String
  | [] => []
  | node :: nodes => shown node :: shownAll nodes

end

end Node

end StarlarkLint
