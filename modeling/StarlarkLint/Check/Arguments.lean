import StarlarkLint.Check.Category
import StarlarkLint.Finding
import StarlarkLint.Node.Traversal

/-!
# Arguments of calls

A call at top level should pass its arguments by keyword, unless the function is one that takes
positional arguments by design.  A package description should not pass arguments behind stars.

## Main definitions

* `PositionalArgs.finding?`, `PositionalArgs.findings` — the finding of a statement and those of a
  file.
* `StarArgs.findings` — the findings of a package description.
-/

namespace StarlarkLint

namespace PositionalArgs

/-- Functions that take positional arguments by design. -/
def exempt : List String :=
  ["distribs", "exports_files", "licenses", "print", "register_execution_platforms",
   "register_toolchains", "vardef"]

/-- What is said about a positional argument. -/
def message : String :=
  "All calls to rules or macros should pass arguments by keyword (arg_name=value) syntax."

/-- An argument that is passed by keyword. -/
def byKeyword : Node → Bool
  | .assign .. => true
  | _ => false

/-- The first positional argument of a statement that calls a function that is not exempt. -/
def argument? (exempt : List String) : Node → Option Node
  | .call _ (.ident _ name) args => if name ∈ exempt then none else args.find? (!byKeyword ·)
  | _ => none

/-- The finding of a statement. -/
def finding? (exempt : List String) (f : SourceFile) (statement : Node) : Option Finding :=
  (argument? exempt statement).map fun argument =>
    f.finding argument.span Check.positionalArgs.name message

/-- The findings of a file. -/
def findings (exempt : List String) (f : SourceFile) : List Finding :=
  f.statements.filterMap (finding? exempt f)

end PositionalArgs

namespace StarArgs

/-- What is said about an argument behind stars. -/
def message? : String → Option String
  | "*" => some "*args are not allowed in BUILD files."
  | "**" => some "**kwargs are not allowed in BUILD files."
  | _ => none

/-- The place of an argument behind stars, and what is said about it. -/
def ofArgument? : Node → Option (Span × String)
  | .unary span op _ => (message? op).map (span, ·)
  | _ => none

/-- The arguments behind stars of a call. -/
def ofCall : Node → List (Span × String)
  | .call _ _ args => args.filterMap ofArgument?
  | _ => []

/-- The findings of a file, which are none unless it is a package description. -/
def findings (f : SourceFile) : List Finding :=
  if f.dialect = .build then
    ((f.node.walk.map (·.1)).flatMap ofCall).map fun (span, message) =>
      f.finding span Check.starArgs.name message
  else []

end StarArgs

end StarlarkLint
