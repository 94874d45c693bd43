import StarlarkLint.Check.Category
import StarlarkLint.Finding
import StarlarkLint.Node.Traversal

/-!
# The native module

In package descriptions the members of the native module are global names, so that the module need
not be named; the two members that are no global names are exempt.  The fix writes the bare name in
place of the member.  In extension files the package function of the module must not be called.

## Main definitions

* `Native.member?` — the member of the native module that a node names.
* `Native.findings`, `Native.fix` — the findings of a package description, and its fix.
* `Native.packageFindings` — the findings of an extension file.
-/

namespace StarlarkLint.Native

/-- The name of a member of the native module, if a node is one. -/
def member? : Node → Option String
  | .member _ (.ident _ base) name => if base = "native" then some name else none
  | _ => none

/-- Members that are no global names. -/
def exemptMembers : List String := ["existing_rule", "existing_rules"]

/-- The name of a member of the native module that is a global name too. -/
def global? (node : Node) : Option String := (member? node).filter (· ∉ exemptMembers)

/-- What is said about a member in a package description. -/
def message : String :=
  "The \"native\" module shouldn't be used in BUILD files, "
    ++ "its members are available as global symbols."

/-- The findings of a file, which are none unless it is a package description. -/
def findings (f : SourceFile) : List Finding :=
  if f.dialect = .build then
    ((f.node.walk.map (·.1)).filter fun node => (global? node).isSome).map fun node =>
      f.finding node.span Check.nativeBuild.name message
  else []

/-- The editor that puts the bare name in place of a member. -/
def editor : Editor := fun node _ =>
  match global? node with
  -- what stands in its place takes up the same text, so that other findings keep their places
  | some name => .replace (.ident node.span name)
  | none => .keep

/-- The file with bare names in place of members, if it is a package description. -/
def fix (f : SourceFile) : SourceFile := if f.dialect = .build then f.edit editor else f

/-- Whether a node calls the package function of the native module. -/
def callsPackage : Node → Bool
  | .call _ callee _ => member? callee == some "package"
  | _ => false

/-- What is said about a call of the package function. -/
def packageMessage : String := "\"native.package()\" shouldn't be used in .bzl files."

/-- The findings of a file, which are none unless it is an extension file. -/
def packageFindings (f : SourceFile) : List Finding :=
  if f.dialect = .bzl then
    ((f.node.walk.map (·.1)).filter callsPackage).map fun node =>
      f.finding node.span Check.nativePackage.name packageMessage
  else []

end StarlarkLint.Native
