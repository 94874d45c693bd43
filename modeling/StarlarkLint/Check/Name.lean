import StarlarkLint.Check.Category
import StarlarkLint.Declaration
import StarlarkLint.Finding

/-!
# Duplicated names

Two declarations of one package description should not give themselves the same name.  Every
declaration but the first of a name is reported, at the name, with the line of the first.

## Main definitions

* `DuplicatedName.names` — the names that the declarations of a file give themselves.
* `DuplicatedName.findings` — the findings of a file.
-/

namespace StarlarkLint.DuplicatedName

/-- The name that a declaration gives itself, with the place of the literal; an empty name does not
count. -/
def name? (d : Declaration) : Option (String × Span) :=
  match d.attribute? "name" with
  | some (.string span value) => if value = "" then none else some (value, span)
  | _ => none

/-- The names that the declarations of a file give themselves, in order. -/
def names (f : SourceFile) : List (String × Span) := f.declarations.filterMap name?

/-- What is said about a name that was first given on the given line. -/
def message (name : String) (line : Int) : String :=
  "A rule with name \"" ++ name ++ "\" was already found on line " ++ toString line ++ ". "
    ++ "Even if it's valid for Blaze, this may confuse other tools. "
    ++ "Please rename it and use different names."

/-- The names that were given before, each with the line where it was first given. -/
def repeats (seen : List (String × Int)) : List (String × Span) → List (String × Span × Int)
  | [] => []
  | (name, span) :: rest =>
    match seen.lookup name with
    -- the line of the first occurrence stays, however often the name comes
    | some line => (name, span, line) :: repeats seen rest
    | none => repeats ((name, span.start.line) :: seen) rest

/-- The findings of a file, which are none unless it is a package description. -/
def findings (f : SourceFile) : List Finding :=
  if f.dialect = .build then
    (repeats [] (names f)).map fun (name, span, line) =>
      f.finding span Check.duplicatedName.name (message name line)
  else []

end StarlarkLint.DuplicatedName
