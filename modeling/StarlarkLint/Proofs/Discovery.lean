import Mathlib.Data.List.Induction
import StarlarkLint.Discovery

/-!
# Build files that exist

On a sound disk every entry lies in directories that are there, down from the root.  So from a
directory on, the names that lead to something below it can be followed, and the build files that a
path stands for exist if the path does.

## Main definitions

* `Disk.Sound` — entries lie in directories, and two dots are no name.

## Main results

* `Disk.mem_buildFiles` — which paths are found in a directory.
* `Disk.Sound.exists?_of_mem_filesAt` — what a path stands for exists if the path does.
-/

namespace StarlarkLint

namespace Disk

/-- Entries lie in directories, and two dots, which lead up, are no name. -/
structure Sound (disk : Disk) : Prop where
  /-- There is a directory at every place above an entry. -/
  above : ∀ e ∈ disk.entries, ∀ place ∈ parents e.1, disk.at? place = some .directory
  /-- Two dots are not among the names that lead to an entry. -/
  named : ∀ e ∈ disk.entries, ".." ∉ e.1

variable {disk : Disk} {place names : List String} {entry : Entry}

/-- The places above a place are those that it goes on from, the root left out. -/
theorem mem_parents_iff {other : List String} :
    other ∈ parents place ↔ other ≠ [] ∧ ∃ name rest, place = other ++ name :: rest := by
  induction place generalizing other with
  | nil => simp [parents]
  | cons first place ih =>
    cases place with
    | nil =>
      cases other with
      | nil => simp [parents]
      | cons name other => simp [parents]
    | cons second place =>
      simp only [parents, List.mem_cons, List.mem_map, ih]
      constructor
      · rintro (rfl | ⟨behind, ⟨-, name, rest, hplace⟩, rfl⟩)
        · exact ⟨List.cons_ne_nil _ _, second, place, rfl⟩
        · exact ⟨List.cons_ne_nil _ _, name, rest, by rw [hplace, List.cons_append]⟩
      · rintro ⟨hne, name, rest, hplace⟩
        obtain ⟨head, other, rfl⟩ := List.exists_cons_of_ne_nil hne
        rw [List.cons_append, List.cons.injEq] at hplace
        obtain ⟨rfl, hplace⟩ := hplace
        cases other with
        | nil => exact .inl rfl
        | cons name' other => exact .inr ⟨_, ⟨List.cons_ne_nil _ _, name, rest, hplace⟩, rfl⟩

/-- The places above something in a directory are the directory and those above it. -/
theorem parents_append_singleton (h : place ≠ []) (name : String) :
    parents (place ++ [name]) = parents place ++ [place] := by
  induction place with
  | nil => exact absurd rfl h
  | cons first place ih =>
    cases place with
    | nil => rfl
    | cons second place =>
      rw [List.cons_append, List.cons_append, parents, ← List.cons_append,
        ih (List.cons_ne_nil _ _)]
      · simp [parents]
      · simp

/-! ### Sound disks -/

theorem sound_empty (working : List String) : (Disk.empty working).Sound where
  above := by simp [Disk.empty]
  named := by simp [Disk.empty]

/-- An entry may be put where there are directories above, but no file where a directory is. -/
theorem Sound.put (h : disk.Sound) (hnamed : ".." ∉ place)
    (habove : ∀ other ∈ parents place, disk.at? other = some .directory)
    (hfree : entry = .directory ∨ disk.at? place ≠ some .directory) :
    (disk.put place entry).Sound where
  above := by
    intro e he other hother
    by_cases hplace : other = place
    · subst hplace
      -- something lies below the place, which has been a directory, and is one now
      have hlisted : e ∈ disk.entries := by
        rcases List.mem_cons.1 he with rfl | he
        · obtain ⟨-, name, rest, hself⟩ := mem_parents_iff.1 hother
          simp at hself
        · exact (List.mem_filter.1 he).1
      obtain rfl := hfree.resolve_right (not_not_intro (h.above e hlisted other hother))
      exact at?_put_self _ (mem_parents_iff.1 hother).1
    · rw [at?_put_of_ne _ hplace]
      rcases List.mem_cons.1 he with rfl | he
      · exact habove other hother
      · exact h.above e (List.mem_filter.1 he).1 other hother
  named := by
    intro e he
    rcases List.mem_cons.1 he with rfl | he
    · exact hnamed
    · exact h.named e (List.mem_filter.1 he).1

/-- A disk with directories at the places above a place. -/
def reaching (disk : Disk) (place : List String) : Disk :=
  (parents place).foldl (fun disk place => disk.put place .directory) disk

theorem addDirectory_eq (disk : Disk) (place : List String) :
    disk.addDirectory place = (disk.reaching place).put place .directory := by
  rw [addDirectory, List.foldl_append]
  rfl

theorem reaching_append_singleton (disk : Disk) (h : place ≠ []) (name : String) :
    disk.reaching (place ++ [name]) = (disk.reaching place).put place .directory := by
  rw [reaching, parents_append_singleton h, List.foldl_append]
  rfl

/-- What is not above the place stays. -/
theorem at?_reaching_of_notMem {other : List String} (h : other ∉ parents place) :
    (disk.reaching place).at? other = disk.at? other := by
  unfold reaching
  generalize parents place = places at h
  induction places generalizing disk with
  | nil => rfl
  | cons first places ih =>
    rw [List.mem_cons, not_or] at h
    rw [List.foldl_cons, ih h.2, at?_put_of_ne _ h.1]

/-- Directories can be put above a place; the induction adds the lowest of them last. -/
theorem Sound.reaching (h : disk.Sound) (hnamed : ".." ∉ place) :
    (disk.reaching place).Sound ∧
      ∀ other ∈ parents place, (disk.reaching place).at? other = some .directory := by
  induction place using List.reverseRecOn with
  | nil => exact ⟨h, by simp [parents]⟩
  | append_singleton place name ih =>
    rw [List.mem_append, not_or] at hnamed
    obtain ⟨hsound, habove⟩ := ih hnamed.1
    cases hplace : place with
    | nil => exact ⟨h, by simp [parents]⟩
    | cons first rest =>
      have hne : place ≠ [] := by simp [hplace]
      rw [← hplace, reaching_append_singleton disk hne, parents_append_singleton hne]
      refine ⟨hsound.put hnamed.1 habove (.inl rfl), fun other hother => ?_⟩
      by_cases hlast : other = place
      · rw [hlast, at?_put_self _ hne]
      · rw [at?_put_of_ne _ hlast]
        exact habove other (by simpa [hlast] using hother)

/-- A disk stays sound when a directory is added to it. -/
theorem Sound.addDirectory (h : disk.Sound) (hnamed : ".." ∉ place) :
    (disk.addDirectory place).Sound := by
  obtain ⟨hsound, habove⟩ := h.reaching hnamed
  rw [addDirectory_eq]
  exact hsound.put hnamed habove (.inl rfl)

/-- A disk stays sound when a file is added to it where there is no directory. -/
theorem Sound.addFile (h : disk.Sound) (hnamed : ".." ∉ place)
    (hfree : disk.at? place ≠ some .directory) (bytes : ByteArray) :
    (disk.addFile place bytes).Sound := by
  obtain ⟨hsound, habove⟩ := h.reaching hnamed
  have hself : place ∉ parents place := fun hmem => by
    obtain ⟨-, name, rest, hplace⟩ := mem_parents_iff.1 hmem
    simp at hplace
  refine hsound.put hnamed habove (.inr ?_)
  rwa [at?_reaching_of_notMem hself]

/-! ### What is found in a directory -/

theorem relative?_eq_some_iff {other : List String} :
    relative? place other = some names ↔ names ≠ [] ∧ other = place ++ names := by
  unfold relative?
  split
  · next hprefix =>
    obtain ⟨behind, rfl⟩ := List.isPrefixOf_iff_prefix.1 hprefix
    rw [List.drop_left]
    cases behind with
    | nil => simp +contextual
    | cons name behind => simp +contextual [eq_comm]
  · next hprefix =>
    simp only [reduceCtorEq, false_iff, not_and]
    rintro - rfl
    exact hprefix (List.isPrefixOf_iff_prefix.2 (List.prefix_append _ _))

theorem mem_below :
    (names, entry) ∈ disk.below place ↔ names ≠ [] ∧ (place ++ names, entry) ∈ disk.entries := by
  simp only [below, List.mem_filterMap, Option.map_eq_some_iff, Prod.exists, Prod.mk.injEq,
    relative?_eq_some_iff]
  constructor
  · rintro ⟨_, _, hmem, _, ⟨hnames, rfl⟩, rfl, rfl⟩
    exact ⟨hnames, hmem⟩
  · rintro ⟨hnames, hmem⟩
    exact ⟨_, _, hmem, _, ⟨hnames, rfl⟩, rfl, rfl⟩

/-- **Which paths are found in a directory**: those that lead on to a file, by a name that counts.
-/
theorem mem_buildFiles {directory file : Path} {deep : Bool} :
    file ∈ disk.buildFiles directory place deep ↔
      ∃ names bytes, names ≠ [] ∧ (place ++ names, .file bytes) ∈ disk.entries ∧
        (deep = true ∨ names.length = 1) ∧ file = directory.append names ∧
          file.isBuildFile = true := by
  simp only [buildFiles, sortPlaces, List.mem_filter, List.mem_map, List.mem_mergeSort,
    Prod.exists, mem_below, Bool.and_eq_true, Bool.or_eq_true, beq_iff_eq]
  constructor
  · rintro ⟨⟨names, ⟨_, entry, ⟨⟨hne, hmem⟩, hfile, hdeep⟩, rfl⟩, rfl⟩, hbuild⟩
    cases entry with
    | directory => cases hfile
    | file bytes => exact ⟨_, bytes, hne, hmem, hdeep, rfl, hbuild⟩
  · rintro ⟨names, bytes, hne, hmem, hdeep, rfl, hbuild⟩
    exact ⟨⟨names, ⟨names, .file bytes, ⟨⟨hne, hmem⟩, rfl, hdeep⟩, rfl⟩, rfl⟩, hbuild⟩

/-! ### Following paths -/

/-- A name can be followed from a directory only. -/
theorem follow_cons_eq_ok_iff {path : Path} {name : String} {target : List String} :
    disk.follow path place (name :: names) = .ok target ↔
      disk.at? place = some .directory ∧
        disk.follow path (if name = ".." then place.dropLast else place ++ [name]) names =
          .ok target := by
  rw [follow]
  split <;> simp_all

/-- Where names lead does not depend on the path that they are of. -/
theorem follow_congr {path : Path} {target : List String}
    (h : disk.follow path place names = .ok target) (other : Path) :
    disk.follow other place names = .ok target := by
  induction names generalizing place with
  | nil => exact h
  | cons name names ih =>
    rw [follow_cons_eq_ok_iff] at h ⊢
    exact ⟨h.1, ih h.2⟩

/-- Names that can be followed lead on from where they lead. -/
theorem follow_append {path : Path} {target : List String}
    (h : disk.follow path place names = .ok target) (more : List String) :
    disk.follow path place (names ++ more) = disk.follow path target more := by
  induction names generalizing place with
  | nil =>
    cases h
    rfl
  | cons name names ih =>
    rw [follow_cons_eq_ok_iff] at h
    rw [List.cons_append, follow, h.1]
    exact ih h.2

theorem place_append {path : Path} (h : disk.place path = .ok place) (more : List String) :
    disk.place (path.append more) = disk.follow (path.append more) place more :=
  follow_append (follow_congr h _) more

/-- From a directory on, the names that lead to an entry below it can be followed. -/
theorem Sound.follow_below (h : disk.Sound) (hmem : (place ++ names, entry) ∈ disk.entries)
    (hplace : names ≠ [] → disk.at? place = some .directory) (path : Path) :
    disk.follow path place names = .ok (place ++ names) := by
  induction names generalizing place with
  | nil => rw [follow, List.append_nil]
  | cons name names ih =>
    have hname : name ≠ ".." := by
      rintro rfl
      exact h.named _ hmem (by simp)
    have hsplit : place ++ name :: names = (place ++ [name]) ++ names := by simp
    rw [hsplit] at hmem ⊢
    rw [follow_cons_eq_ok_iff, if_neg hname]
    refine ⟨hplace (List.cons_ne_nil _ _), ih hmem fun hnames => ?_⟩
    -- the next name leads to a directory, unless it is the last
    obtain ⟨next, rest, rfl⟩ := List.exists_cons_of_ne_nil hnames
    exact h.above _ hmem _ (mem_parents_iff.2 ⟨by simp, next, rest, rfl⟩)

/-- **What a path stands for exists if the path does.** -/
theorem Sound.exists?_of_mem_filesAt (h : disk.Sound) {deep : Bool} {path file : Path}
    (hexists : disk.exists? path = true) (hfile : file ∈ disk.filesAt deep path) :
    disk.exists? file = true := by
  unfold filesAt at hfile
  split at hfile
  · rwa [List.mem_singleton.1 hfile]
  · next place hplace =>
    split at hfile
    · next hdirectory =>
      obtain ⟨names, bytes, hne, hmem, -, rfl, -⟩ := mem_buildFiles.1 hfile
      have hleads : disk.place (path.append names) = .ok (place ++ names) := by
        rw [place_append hplace]
        exact h.follow_below hmem (fun _ => hdirectory) _
      have hentry : disk.entry? (path.append names) = some (.file bytes) := by
        unfold entry?
        rw [hleads]
        exact at?_of_mem hmem (by simp [hne])
      rw [exists?, hentry, Option.isSome_some]
    · rwa [List.mem_singleton.1 hfile]

end Disk

end StarlarkLint
