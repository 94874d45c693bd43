import StarlarkLint.Disk
import StarlarkLint.Path

/-!
# Finding build files

A directory stands for the build files in it, directly or at any depth, in the order of their paths:
component by component, each by code points.  Any other path stands for itself.

## Main definitions

* `Path.isBuildFile` — whether a file counts, by its name.
* `Disk.buildFiles` — the build files of a directory.
* `Disk.discover` — the files that a list of paths stands for.
-/

namespace StarlarkLint

/-- Whether a file is picked up from a directory, by its name. -/
def Path.isBuildFile (path : Path) : Bool :=
  path.name = "BUILD" ∨ path.name = "BUILD.bazel" ∨ path.suffix = ".bzl"
    ∨ path.nameEndsWith ".BUILD"

namespace Disk

/-- Whether an entry is a file. -/
def Entry.isFile : Entry → Bool
  | .file _ => true
  | .directory => false

/-- Names that lead somewhere in the order of paths. -/
def sortPlaces (places : List (List String)) : List (List String) :=
  places.mergeSort fun a b => !List.lex b a fun x y => decide (x < y)

/-- The build files of a directory, in it directly or at any depth. -/
def buildFiles (disk : Disk) (directory : Path) (place : List String) (deep : Bool) : List Path :=
  -- a directory that is named like a build file is none
  let files := (disk.below place).filter fun (names, entry) =>
    entry.isFile && (deep || names.length == 1)
  ((sortPlaces (files.map (·.1))).map directory.append).filter (·.isBuildFile)

/-- The files that a path stands for. -/
def filesAt (disk : Disk) (deep : Bool) (path : Path) : List Path :=
  match disk.place path with
  | .error _ => [path]
  | .ok place =>
    match disk.at? place with
    | some .directory => disk.buildFiles path place deep
    | _ => [path]

/-- The files that a list of paths stands for, in order. -/
def discover (disk : Disk) (paths : List Path) (deep : Bool := false) : List Path :=
  paths.flatMap (disk.filesAt deep)

end Disk

end StarlarkLint
