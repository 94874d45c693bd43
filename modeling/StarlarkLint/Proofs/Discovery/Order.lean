import Mathlib.Data.List.Lex
import Mathlib.Data.List.Pairwise
import Mathlib.Data.String.Basic
import StarlarkLint.Proofs.Discovery

/-!
# Build files in order

Which paths are found in a directory is one half of what the directory stands for; the other half is
their order.  Nothing is listed twice on a disk, so the names below a directory are different, and
sorting them gives a strict order, which stays when the directory is put in front of them.  The two
halves together leave no choice: a search that looks at the directory alone finds what the search at
any depth finds there, in the same order.

## Main results

* `Disk.pairwise_buildFiles` — build files are found in the order of their paths, each once.
* `Disk.buildFiles_false` — what is found in the directory itself is part of what is found below it.
* `Disk.discover_directory` — what directories and other paths stand for.
-/

namespace StarlarkLint

namespace Disk

variable {disk : Disk} {directory file : Path} {place names : List String} {entry : Entry}
  {deep : Bool}

/-! ### Entries at places -/

/-- What is found at a place is listed there. -/
theorem mem_entries_of_at? (h : disk.at? place = some entry) (hplace : place ≠ []) :
    (place, entry) ∈ disk.entries := by
  rw [at?, if_neg hplace, List.lookup_eq_some_iff] at h
  obtain ⟨before, behind, hentries, -⟩ := h
  rw [hentries]
  exact List.mem_append_right _ List.mem_cons_self

/-- Below a place, what is listed is what is found. -/
theorem mem_entries_iff (hnames : names ≠ []) :
    (place ++ names, entry) ∈ disk.entries ↔ disk.at? (place ++ names) = some entry := by
  have hplace : place ++ names ≠ [] := by simp [hnames]
  exact ⟨fun h => at?_of_mem h hplace, fun h => mem_entries_of_at? h hplace⟩

/-- A directory stands for the build files in it. -/
theorem filesAt_directory (hplace : disk.place directory = .ok place)
    (hdirectory : disk.at? place = some .directory) :
    disk.filesAt deep directory = disk.buildFiles directory place deep := by
  simp only [filesAt, hplace, hdirectory]

/-- Any other path stands for itself. -/
theorem filesAt_of_not_isDirectory {path : Path} (h : disk.isDirectory path = false) :
    disk.filesAt deep path = [path] := by
  unfold filesAt
  split
  · rfl
  · next place hplace =>
    split
    · next hdirectory => simp [isDirectory, entry?, hplace, hdirectory] at h
    · rfl

/-! ### The order of paths -/

/-- Names are sorted component by component. -/
theorem pairwise_sortPlaces (places : List (List String)) :
    (sortPlaces places).Pairwise fun a b => ¬ b < a := by
  have hle : ∀ a b : List String,
      (!List.lex b a fun x y => decide (x < y)) = true ↔ ¬ b < a := by
    intro a b
    rw [Bool.not_eq_true', Bool.eq_false_iff, Ne, List.lex_eq_true_iff_lt]
  refine (List.pairwise_mergeSort ?_ ?_ places).imp (hle _ _).mp
  · intro a b c hab hbc
    rw [hle, not_lt] at hab hbc ⊢
    exact le_trans hab hbc
  · intro a b
    rw [Bool.or_eq_true, hle, hle, not_lt, not_lt]
    exact le_total a b

/-- The names that lead to different entries are different. -/
theorem pairwise_below : (disk.below place).Pairwise fun a b => a.1 ≠ b.1 := by
  have hentries : disk.entries.Pairwise fun a b => a.1 ≠ b.1 := List.pairwise_map.mp disk.distinct
  refine hentries.filterMap _ ?_
  rintro ⟨first, _⟩ ⟨second, _⟩ hne b hb b' hb' heq
  obtain ⟨names, hnames, rfl⟩ := Option.map_eq_some_iff.mp hb
  obtain ⟨names', hnames', rfl⟩ := Option.map_eq_some_iff.mp hb'
  rw [relative?_eq_some_iff] at hnames hnames'
  obtain rfl : names = names' := heq
  exact hne (hnames.2.trans hnames'.2.symm)

/-- **Build files are found in the order of their paths**, component by component, each once. -/
theorem pairwise_buildFiles :
    (disk.buildFiles directory place deep).Pairwise fun a b => a.components < b.components := by
  unfold buildFiles
  extract_lets files
  have hdistinct : (files.map (·.1)).Nodup :=
    List.pairwise_map.mpr (pairwise_below.sublist List.filter_sublist)
  have hsorted : (sortPlaces (files.map (·.1))).Pairwise (· < ·) := by
    have hnodup : (sortPlaces (files.map (·.1))).Nodup :=
      (List.mergeSort_perm _ _).nodup_iff.mpr hdistinct
    exact (pairwise_sortPlaces _).imp₂
      (fun a b hle hne => lt_of_le_of_ne (not_lt.mp hle) hne) hnodup
  refine List.Pairwise.filter _ (List.pairwise_map.mpr (hsorted.imp fun hlt => ?_))
  exact List.Lex.append_left _ hlt _

/-- Lists of paths in strict order are the same if they hold the same paths. -/
theorem eq_of_pairwise_components {found found' : List Path}
    (h : found.Pairwise fun a b => a.components < b.components)
    (h' : found'.Pairwise fun a b => a.components < b.components)
    (hmem : ∀ file, file ∈ found ↔ file ∈ found') : found = found' := by
  have hne : ∀ {a b : Path}, a.components < b.components → a ≠ b := by
    rintro a b hlt rfl
    exact lt_irrefl _ hlt
  have hperm : found.Perm found' :=
    (List.perm_ext_iff_of_nodup (h.imp hne) (h'.imp hne)).mpr hmem
  exact hperm.eq_of_pairwise (fun a b _ _ hab hba => absurd (hab.trans hba) (lt_irrefl _)) h h'

/-- **What is found in the directory itself** is that part of what is found below it. -/
theorem buildFiles_false :
    disk.buildFiles directory place false = (disk.buildFiles directory place true).filter
      fun file => file.components.length = directory.components.length + 1 := by
  refine eq_of_pairwise_components pairwise_buildFiles (pairwise_buildFiles.filter _) fun file => ?_
  rw [List.mem_filter, mem_buildFiles, mem_buildFiles, decide_eq_true_eq]
  constructor
  · rintro ⟨names, bytes, hne, hmem, hdirect, rfl, hbuild⟩
    refine ⟨⟨names, bytes, hne, hmem, .inl rfl, rfl, hbuild⟩, ?_⟩
    simpa [Path.append] using hdirect
  · rintro ⟨⟨names, bytes, hne, hmem, -, rfl, hbuild⟩, hlength⟩
    refine ⟨names, bytes, hne, hmem, .inr ?_, rfl, hbuild⟩
    simpa [Path.append] using hlength

/-! ### What paths stand for -/

theorem discover_singleton (path : Path) : disk.discover [path] deep = disk.filesAt deep path := by
  rw [discover, List.flatMap_singleton]

/-- **What directories and other paths stand for.**  A directory stands, at any depth, for the files
below it whose name counts, in the strict order of their components, so that none comes twice; and
for those of them that lie in the directory itself, if it is not searched at depth.  Several paths
stand for what each of them stands for, in turn, and a path that is no directory for itself. -/
theorem discover_directory (disk : Disk) {directory : Path} {place : List String}
    (hplace : disk.place directory = .ok place) (hdirectory : disk.at? place = some .directory) :
    (∀ file, file ∈ disk.discover [directory] true ↔
      ∃ names bytes, names ≠ [] ∧ disk.at? (place ++ names) = some (.file bytes) ∧
        file = directory.append names ∧ file.isBuildFile = true) ∧
    (disk.discover [directory] true).Pairwise (fun a b => a.components < b.components) ∧
    disk.discover [directory] false = (disk.discover [directory] true).filter
      (fun file => file.components.length = directory.components.length + 1) ∧
    (∀ paths deep, disk.discover paths deep = paths.flatMap fun path => disk.discover [path] deep) ∧
    ∀ path deep, disk.isDirectory path = false → disk.discover [path] deep = [path] := by
  simp only [discover_singleton, filesAt_directory hplace hdirectory]
  refine ⟨fun file => ?_, pairwise_buildFiles, buildFiles_false, fun paths deep => rfl,
    fun path deep hpath => filesAt_of_not_isDirectory hpath⟩
  rw [mem_buildFiles]
  constructor
  · rintro ⟨names, bytes, hne, hmem, -, hfile⟩
    exact ⟨names, bytes, hne, (mem_entries_iff hne).mp hmem, hfile⟩
  · rintro ⟨names, bytes, hne, hat, hfile⟩
    exact ⟨names, bytes, hne, (mem_entries_iff hne).mpr hat, .inl rfl, hfile⟩

/-- A disk with a directory that is named like a build file, and with names that come in another
order as parts of a path than as parts of a text. -/
def nested : Disk where
  entries :=
    [(["pkg"], .directory), (["pkg", "BUILD"], .directory),
     (["pkg", "BUILD", "x.bzl"], .file ⟨#[]⟩), (["pkg", "a-b"], .directory),
     (["pkg", "a-b", "BUILD"], .file ⟨#[]⟩), (["pkg", "a"], .directory),
     (["pkg", "a", "BUILD"], .file ⟨#[]⟩), (["pkg", "defs.bzl"], .file ⟨#[]⟩),
     (["pkg", "README.md"], .file ⟨#[]⟩)]
  distinct := by decide

theorem discover_directory_nested :
    nested.place ⟨.here, ["pkg"]⟩ = .ok ["pkg"] ∧ nested.at? ["pkg"] = some .directory ∧
      nested.discover [⟨.here, ["pkg"]⟩] true =
        [⟨.here, ["pkg", "BUILD", "x.bzl"]⟩, ⟨.here, ["pkg", "a", "BUILD"]⟩,
         ⟨.here, ["pkg", "a-b", "BUILD"]⟩, ⟨.here, ["pkg", "defs.bzl"]⟩] ∧
      nested.discover [⟨.here, ["pkg"]⟩] false = [⟨.here, ["pkg", "defs.bzl"]⟩] := by
  have hplace : nested.place ⟨.here, ["pkg"]⟩ = .ok ["pkg"] := by rfl
  have hdirectory : nested.at? ["pkg"] = some .directory := by rfl
  have hsorted : sortPlaces
      [["BUILD", "x.bzl"], ["a-b", "BUILD"], ["a", "BUILD"], ["defs.bzl"], ["README.md"]] =
      [["BUILD", "x.bzl"], ["README.md"], ["a", "BUILD"], ["a-b", "BUILD"], ["defs.bzl"]] :=
    ((List.mergeSort_perm _ _).trans (by decide)).eq_of_pairwise
      (fun a b _ _ hab hba => le_antisymm (not_lt.mp hab) (not_lt.mp hba))
      (pairwise_sortPlaces _) (by decide)
  have hdeep : nested.discover [⟨.here, ["pkg"]⟩] true =
      [⟨.here, ["pkg", "BUILD", "x.bzl"]⟩, ⟨.here, ["pkg", "a", "BUILD"]⟩,
       ⟨.here, ["pkg", "a-b", "BUILD"]⟩, ⟨.here, ["pkg", "defs.bzl"]⟩] := by
    have hfound : nested.buildFiles ⟨.here, ["pkg"]⟩ ["pkg"] true =
        ((sortPlaces [["BUILD", "x.bzl"], ["a-b", "BUILD"], ["a", "BUILD"], ["defs.bzl"],
          ["README.md"]]).map (Path.append ⟨.here, ["pkg"]⟩)).filter (·.isBuildFile) := by rfl
    rw [discover_singleton, filesAt_directory hplace hdirectory, hfound, hsorted]
    decide
  obtain ⟨-, -, hflat, -⟩ := discover_directory nested hplace hdirectory
  refine ⟨hplace, hdirectory, hdeep, ?_⟩
  rw [hflat, hdeep]
  rfl

end Disk

end StarlarkLint
