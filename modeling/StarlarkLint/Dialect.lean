import StarlarkLint.Path

/-!
# Dialects

Build descriptions are written in one language but in three roles: package descriptions, extension
files, and everything else.  The role of a file is told from its name.

## Main definitions

* `Dialect`, `Dialect.name`, `Dialect.ofName?` — the roles and their names.
* `Dialect.text`, `Dialect.shown` — a role as a text, and as it is shown in messages.
* `Dialect.ofPath` — the role a file has by its name.
-/

namespace StarlarkLint

/-- The role of a build description. -/
inductive Dialect
  /-- A package description. -/
  | build
  /-- An extension file. -/
  | bzl
  /-- Anything else. -/
  | generic
  deriving DecidableEq, Repr, Inhabited

namespace Dialect

/-- The dialects in the order in which they are listed to the user. -/
def all : List Dialect := [build, bzl, generic]

/-- The name by which the user calls a dialect. -/
def name : Dialect → String
  | build => "build"
  | bzl => "bzl"
  | generic => "default"

/-- The dialect of a name. -/
def ofName? (name : String) : Option Dialect := all.find? (·.name == name)

@[simp] theorem ofName?_name (d : Dialect) : ofName? d.name = some d := by
  cases d <;> decide

/-- The text that a dialect is converted to, which is not its name. -/
def text : Dialect → String
  | build => "FileType.BUILD"
  | bzl => "FileType.BZL"
  | generic => "FileType.DEFAULT"

/-- A dialect as it is shown in messages. -/
def shown (d : Dialect) : String := "<" ++ d.text ++ ": '" ++ d.name ++ "'>"

/-- The dialect of a file, by the last component of its path. -/
def ofPath (path : Path) : Dialect :=
  if path.name = "BUILD" ∨ path.name = "BUILD.bazel" ∨ path.nameEndsWith ".BUILD" then build
  else if path.nameEndsWith ".bzl" then bzl
  else generic

end Dialect

end StarlarkLint
