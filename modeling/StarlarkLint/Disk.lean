import StarlarkLint.Path
import StarlarkLint.Text.Quoted

/-!
# Disks

What the program sees of a file system: files and directories under their places, a place being the
names that lead to it from the root, and the place of the working directory.  A path is followed
name by name through directories that exist; two dots lead to the directory above.  There are no
links, and everything may be read and written.

## Main definitions

* `Disk`, `Disk.Entry` — the files and directories.
* `Disk.place`, `Disk.entry?` — where a path leads, and what is there.
* `Disk.read`, `Disk.write` — the bytes of a file.
* `Disk.below` — what a directory holds, directly or at any depth.

## Main results

* `Disk.at?_of_mem` — every entry that is listed is found at its place.
* `Disk.at?_put_self`, `Disk.at?_put_of_ne` — what is found after an entry was put at a place.
-/

namespace StarlarkLint

/-- What is found at a place. -/
inductive Disk.Entry
  /-- A file and its bytes. -/
  | file (bytes : ByteArray)
  /-- A directory. -/
  | directory
  deriving Inhabited, BEq

/-- The files and directories that the program sees. -/
structure Disk where
  /-- The entries under their places; the root need not be listed. -/
  entries : List (List String × Disk.Entry) := []
  /-- Nothing is listed twice. -/
  distinct : (entries.map Prod.fst).Nodup := by simp
  /-- The place of the working directory. -/
  working : List String := []

instance : Inhabited Disk := ⟨{}⟩

/-- A disk with nothing on it, seen from a place. -/
def Disk.empty (working : List String) : Disk := { working }

/-- Why a file cannot be read. -/
inductive DiskError
  /-- There is nothing at the path. -/
  | notFound (path : Path)
  /-- The path leads to a directory. -/
  | isDirectory (path : Path)
  /-- The path leads on through a file. -/
  | notDirectory (path : Path)
  deriving DecidableEq, Repr, Inhabited

/-- The reason in words. -/
def DiskError.message : DiskError → String
  | notFound path => "[Errno 2] No such file or directory: " ++ Text.quoted path.text
  | isDirectory path => "[Errno 21] Is a directory: " ++ Text.quoted path.text
  | notDirectory path => "[Errno 20] Not a directory: " ++ Text.quoted path.text

namespace Disk

/-- What is found at a place. -/
def at? (disk : Disk) (place : List String) : Option Entry :=
  if place = [] then some .directory else disk.entries.lookup place

/-- An entry that is listed is found at its place, since nothing is listed twice. -/
theorem at?_of_mem {disk : Disk} {place : List String} {entry : Entry}
    (h : (place, entry) ∈ disk.entries) (hplace : place ≠ []) : disk.at? place = some entry := by
  have hlookup : ∀ {entries : List (List String × Entry)}, (entries.map Prod.fst).Nodup →
      (place, entry) ∈ entries → entries.lookup place = some entry := by
    intro entries hdistinct hmem
    induction entries with
    | nil => exact absurd hmem List.not_mem_nil
    | cons e entries ih =>
      obtain ⟨other, found⟩ := e
      rw [List.map_cons, List.nodup_cons] at hdistinct
      rcases List.mem_cons.1 hmem with hhead | htail
      · obtain ⟨rfl, rfl⟩ := Prod.mk.inj hhead
        rw [List.lookup_cons, beq_self_eq_true]
      · -- the place is listed below, and so not at the head
        have hne : place ≠ other := fun heq =>
          hdistinct.1 (heq ▸ List.mem_map.2 ⟨_, htail, rfl⟩)
        rw [List.lookup_cons, beq_false_of_ne hne]
        exact ih hdistinct.2 htail
  rw [at?, if_neg hplace]
  exact hlookup disk.distinct h

/-- Follow names from a place on; `path` is the path as a whole, for errors. -/
def follow (disk : Disk) (path : Path) (place : List String) :
    List String → Except DiskError (List String)
  | [] => .ok place
  | name :: names =>
    match disk.at? place with
    | none => .error (.notFound path)
    -- nothing lies below a file, two dots included
    | some (.file _) => .error (.notDirectory path)
    | some .directory =>
      follow disk path (if name = ".." then place.dropLast else place ++ [name]) names

/-- The place that a path leads to, where something need not be. -/
def place (disk : Disk) (path : Path) : Except DiskError (List String) :=
  disk.follow path (if path.anchor = .here then disk.working else []) path.components

/-- What a path leads to. -/
def entry? (disk : Disk) (path : Path) : Option Entry :=
  match disk.place path with
  | .ok place => disk.at? place
  | .error _ => none

/-- Whether a path leads to something. -/
def exists? (disk : Disk) (path : Path) : Bool := (disk.entry? path).isSome

/-- Whether a path leads to a directory. -/
def isDirectory (disk : Disk) (path : Path) : Bool :=
  match disk.entry? path with
  | some .directory => true
  | _ => false

/-- The bytes of a file. -/
def read (disk : Disk) (path : Path) : Except DiskError ByteArray := do
  let place ← disk.place path
  match disk.at? place with
  | some (.file bytes) => .ok bytes
  | some .directory => .error (.isDirectory path)
  | none => .error (.notFound path)

/-- Put an entry at a place, where another may be. -/
def put (disk : Disk) (place : List String) (entry : Entry) : Disk where
  entries := (place, entry) :: disk.entries.filter (·.1 ≠ place)
  distinct := by
    rw [List.map_cons, List.nodup_cons]
    refine ⟨fun h => ?_, disk.distinct.sublist (List.filter_sublist.map _)⟩
    obtain ⟨⟨other, _⟩, hmem, hplace⟩ := List.mem_map.1 h
    exact absurd hplace (by simpa using (List.mem_filter.1 hmem).2)
  working := disk.working

/-- An entry that was put at a place is found there. -/
theorem at?_put_self {disk : Disk} {place : List String} (entry : Entry) (h : place ≠ []) :
    (disk.put place entry).at? place = some entry := by
  simp [at?, put, h]

/-- What is found at other places stays. -/
theorem at?_put_of_ne {disk : Disk} {place other : List String} (entry : Entry)
    (h : other ≠ place) : (disk.put place entry).at? other = disk.at? other := by
  have hlookup : (disk.entries.filter (·.1 ≠ place)).lookup other = disk.entries.lookup other := by
    induction disk.entries with
    | nil => rfl
    | cons e entries ih =>
      obtain ⟨at', found⟩ := e
      rw [List.filter_cons]
      split
      · rw [List.lookup_cons, List.lookup_cons, ih]
      · rename_i hplace
        have hat : at' = place := by simpa using hplace
        rw [List.lookup_cons, ih, beq_false_of_ne (hat ▸ h)]
  unfold at?
  rw [put, List.lookup_cons, beq_false_of_ne h, hlookup]

/-- Replace the bytes of a file. -/
def write (disk : Disk) (path : Path) (bytes : ByteArray) : Disk :=
  match disk.place path with
  | .ok place => disk.put place (.file bytes)
  | .error _ => disk

/-- The places above a place, the root left out. -/
def parents : List String → List (List String)
  | [] | [_] => []
  | name :: names => [name] :: (parents names).map (name :: ·)

/-- Put a directory at a place, with the directories above it. -/
def addDirectory (disk : Disk) (place : List String) : Disk :=
  (parents place ++ [place]).foldl (fun disk place => disk.put place .directory) disk

/-- Put a file at a place, with the directories above it. -/
def addFile (disk : Disk) (place : List String) (bytes : ByteArray) : Disk :=
  ((parents place).foldl (fun disk place => disk.put place .directory) disk).put place (.file bytes)

/-- The names that lead from a place to what lies below it, if it is a place below. -/
def relative? (place other : List String) : Option (List String) :=
  if place.isPrefixOf other then
    match other.drop place.length with
    | [] => none
    | names => some names
  else none

/-- The entries below a place, at any depth, under the names that lead there from it. -/
def below (disk : Disk) (place : List String) : List (List String × Entry) :=
  disk.entries.filterMap fun (other, entry) => (relative? place other).map (·, entry)

end Disk

end StarlarkLint
