import StarlarkLint.Node.Basic
import StarlarkLint.Text.Quoted

/-!
# Declarations

A call at top level declares a target when its callee is a name or a dotted name.  The dotted name
is the kind of the declaration, and its keyword arguments are its attributes.

## Main definitions

* `Node.dottedName?` — the name that a callee spells.
* `Declaration` — a declaring call; its `kind`, `attribute?` and `explicitName`.
* `SourceFile.declarations` — the declarations of a file.
-/

namespace StarlarkLint

/-- The dotted name that a node spells, if it is built from names and members alone. -/
def Node.dottedName? : Node → Option String
  | .ident _ name => some name
  | .member _ base name => (dottedName? base).map (· ++ "." ++ name)
  | _ => none

/-- A declaring call. -/
structure Declaration where
  /-- Where the call stands. -/
  span : Span
  /-- What is called. -/
  callee : Node
  /-- What it is called with. -/
  args : List Node
  deriving Repr, Inhabited

namespace Declaration

/-- The dotted name of the callee, empty if it spells none. -/
def kind (d : Declaration) : String := d.callee.dottedName?.getD ""

/-- The value of the first argument that is passed under the given name. -/
def attribute? (d : Declaration) (key : String) : Option Node :=
  d.args.findSome? fun
    | .assign _ (.ident _ name) _ value => if name = key then some value else none
    | _ => none

/-- The content of an attribute that is a string, and the empty text otherwise. -/
def attributeText (d : Declaration) (key : String) : String :=
  match d.attribute? key with
  | some (.string _ value) => value
  | _ => ""

/-- The name that the declaration gives itself. -/
def explicitName (d : Declaration) : String := d.attributeText "name"

/-- The short form of a declaration. -/
def shown (d : Declaration) : String :=
  "Rule(" ++ d.kind ++ ", name=" ++ Text.quoted d.explicitName ++ ")"

/-- The declaration that a statement is, if it is one. -/
def ofStatement? : Node → Option Declaration
  | .call span callee args =>
    let d : Declaration := { span, callee, args }
    if d.kind = "" then none else some d
  | _ => none

end Declaration

/-- The declarations of a file, in order. -/
def SourceFile.declarations (f : SourceFile) : List Declaration :=
  f.statements.filterMap Declaration.ofStatement?

/-- The declarations of one kind, or all of them when no kind is given. -/
def SourceFile.declarationsOf (f : SourceFile) (kind : String) : List Declaration :=
  f.declarations.filter fun d => kind = "" ∨ d.kind = kind

end StarlarkLint
