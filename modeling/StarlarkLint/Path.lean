/-!
# Paths

A path is an anchor and a list of components.  Writing a path and reading it back drops what does
not matter for where it leads: components that are a single dot, and doubled and trailing slashes.
Two dots are kept, since where they lead depends on the directories.

## Main definitions

* `Path`, `Path.parse`, `Path.text` — paths, reading and writing them.
* `Path.name`, `Path.suffix` — the last component, and its part from the last dot on.
-/

namespace StarlarkLint

/-- Where a path starts. -/
inductive Path.Anchor
  /-- At the working directory. -/
  | here
  /-- At the root of the file system. -/
  | root
  /-- At a root that is written with exactly two slashes. -/
  | doubleRoot
  deriving DecidableEq, Repr, Inhabited

/-- A path, as an anchor and the components below it. -/
structure Path where
  /-- Where the path starts. -/
  anchor : Path.Anchor := .here
  /-- The components, none of them empty or a single dot. -/
  components : List String := []
  deriving DecidableEq, Repr, Inhabited

namespace Path

/-- The anchor that a text starts with: one slash or more than two are the root, two are kept. -/
def Anchor.ofText : List Char → Anchor
  | '/' :: '/' :: '/' :: _ => .root
  | '/' :: '/' :: _ => .doubleRoot
  | '/' :: _ => .root
  | _ => .here

/-- Read a path. -/
def parse (text : String) : Path where
  anchor := .ofText text.toList
  components := ((text.toList.splitOn '/').filter fun piece => piece ≠ [] ∧ piece ≠ ['.']).map
    String.ofList

/-- How an anchor is written. -/
def Anchor.text : Anchor → String
  | .here => ""
  | .root => "/"
  | .doubleRoot => "//"

/-- Write a path; the working directory itself is a single dot. -/
def text (path : Path) : String :=
  if path.anchor = .here ∧ path.components = [] then "."
  else path.anchor.text ++ "/".intercalate path.components

/-- The last component, empty for a path that has none. -/
def name (path : Path) : String := path.components.getLast?.getD ""

/-- Whether the last component ends in the given text. -/
def nameEndsWith (path : Path) (ending : String) : Bool :=
  ending.toList.isSuffixOf path.name.toList

/-- The characters behind the last dot, if there is a dot. -/
def afterLastDot? (name : List Char) : Option (List Char) :=
  if '.' ∈ name then (name.splitOn '.').getLast? else none

/-- The part of the name from its last dot on; empty where that dot is the first or the last
character. -/
def suffix (path : Path) : String :=
  match afterLastDot? path.name.toList with
  | some tail =>
    -- the dot is neither the last character of the name nor the first
    if tail ≠ [] ∧ tail.length + 1 < path.name.length then String.ofList ('.' :: tail) else ""
  | none => ""

/-- The path that leads from `path` on through further components. -/
def append (path : Path) (components : List String) : Path :=
  { path with components := path.components ++ components }

end Path

end StarlarkLint
