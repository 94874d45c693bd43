import StarlarkLint.Dialect
import StarlarkLint.Proofs.Discovery.Order

/-!
# Build files and dialects

A directory is searched for files by their names, and the dialect of a file is told from its name as
well.  Both ask for the same names and endings, but not in the same way: one asks for the part of
the name from its last dot on, which is empty where nothing stands in front of that dot, and the
other for the end of the name.  So there is one name, `.bzl`, that is the name of an extension file
and is not found; all else that has a dialect is.

## Main results

* `Path.suffix_eq_iff` — the suffix of a name is how the name ends, if there is more to the name.
* `Path.isBuildFile_iff` — which names are found, by the dialects that they tell.
* `Disk.found_iff_ofPath` — the same of the files in a directory.
-/

namespace StarlarkLint

namespace Path

variable {path : Path} {ending : String}

/-! ### Suffixes -/

/-- What stands behind the last dot holds no dot. -/
theorem afterLastDot?_eq_some_iff {cs tail : List Char} :
    afterLastDot? cs = some tail ↔ '.' ∉ tail ∧ ∃ front, cs = front ++ '.' :: tail := by
  have hsplit : ∀ {front tail : List Char}, '.' ∉ tail →
      afterLastDot? (front ++ '.' :: tail) = some tail := by
    intro front tail hdot
    rw [afterLastDot?, if_pos (by simp), List.splitOn_append_cons_self,
      List.splitOn_eq_singleton hdot, List.getLast?_concat]
  constructor
  · intro h
    have hmem : '.' ∈ cs := by
      by_contra hnot
      rw [afterLastDot?, if_neg hnot] at h
      cases h
    -- the last dot is the first from behind
    obtain ⟨behind, front, hreverse, hdot⟩ :=
      List.eq_append_cons_of_mem (List.mem_reverse.mpr hmem)
    have hcs : cs = front.reverse ++ '.' :: behind.reverse := by
      rw [← List.reverse_inj, hreverse]
      simp
    have hdot' : '.' ∉ behind.reverse := by simpa using hdot
    rw [hcs, hsplit hdot', Option.some.injEq] at h
    exact ⟨h ▸ hdot', _, h ▸ hcs⟩
  · rintro ⟨hdot, front, rfl⟩
    exact hsplit hdot

/-- A name ends in a text if it goes on with the text from some place on. -/
theorem nameEndsWith_iff :
    path.nameEndsWith ending = true ↔ ∃ front, path.name.toList = front ++ ending.toList := by
  rw [nameEndsWith, List.isSuffixOf_iff_suffix]
  exact exists_congr fun front => eq_comm

/-- **The suffix of a name** is how the name ends, unless there is nothing more to the name. -/
theorem suffix_eq_iff {tail : List Char} (htail : tail ≠ []) (hdot : '.' ∉ tail) :
    path.suffix = String.ofList ('.' :: tail) ↔
      path.nameEndsWith (String.ofList ('.' :: tail)) = true ∧
        path.name ≠ String.ofList ('.' :: tail) := by
  have hnonempty : "" ≠ String.ofList ('.' :: tail) := by
    intro h
    simpa using congrArg String.toList h
  rw [nameEndsWith_iff, String.toList_ofList]
  unfold suffix
  cases hlast : afterLastDot? path.name.toList with
  | none =>
    refine iff_of_false hnonempty ?_
    rintro ⟨hends, -⟩
    rw [afterLastDot?_eq_some_iff.mpr ⟨hdot, hends⟩] at hlast
    cases hlast
  | some behind =>
    obtain ⟨-, front, hname⟩ := afterLastDot?_eq_some_iff.mp hlast
    have hlength : path.name.length = front.length + (behind.length + 1) := by
      rw [← String.length_toList, hname, List.length_append, List.length_cons]
    constructor
    · intro h
      dsimp only at h
      split at h
      · next hmore =>
        obtain rfl : behind = tail := by simpa using congrArg String.toList h
        refine ⟨⟨front, hname⟩, fun hself => ?_⟩
        rw [hself, String.length_ofList, List.length_cons] at hmore
        exact absurd hmore.2 (lt_irrefl _)
      · exact absurd h hnonempty
    · rintro ⟨hends, hself⟩
      rw [afterLastDot?_eq_some_iff.mpr ⟨hdot, hends⟩, Option.some.injEq] at hlast
      subst hlast
      have hfront : front ≠ [] := by
        rintro rfl
        exact hself (String.toList_injective (by rw [hname, String.toList_ofList, List.nil_append]))
      have hpos := List.length_pos_of_ne_nil hfront
      exact if_pos ⟨htail, by omega⟩

/-! ### Names that are found -/

/-- The names that tell a dialect. -/
theorem ofPath_ne_generic_iff : Dialect.ofPath path ≠ .generic ↔
    path.name = "BUILD" ∨ path.name = "BUILD.bazel" ∨ path.nameEndsWith ".BUILD" = true ∨
      path.nameEndsWith ".bzl" = true := by
  unfold Dialect.ofPath
  split
  · next hbuild =>
    refine iff_of_true (by decide) ?_
    rcases hbuild with h | h | h
    · exact .inl h
    · exact .inr (.inl h)
    · exact .inr (.inr (.inl h))
  · next hbuild =>
    rw [not_or, not_or] at hbuild
    simp [hbuild]

/-- **Which names are found**: those that tell a dialect, but for one. -/
theorem isBuildFile_iff (path : Path) :
    path.isBuildFile = true ↔ Dialect.ofPath path ≠ .generic ∧ path.name ≠ ".bzl" := by
  have hsuffix : path.suffix = ".bzl" ↔ path.nameEndsWith ".bzl" = true ∧ path.name ≠ ".bzl" :=
    suffix_eq_iff (show "bzl".toList ≠ [] by decide) (by decide)
  rw [ofPath_ne_generic_iff, isBuildFile, decide_eq_true_eq, hsuffix]
  by_cases hname : path.name = ".bzl"
  · have hbuild : path.nameEndsWith ".BUILD" = false := by
      rw [nameEndsWith, hname]
      decide
    simp [hname, hbuild]
  · simp only [hname, ne_eq, not_false_eq_true, and_true]
    tauto

end Path

/-- **A name is found exactly if it tells a dialect and is not `.bzl`**, and so is a file in a
directory, which may be searched at any depth. -/
theorem Disk.found_iff_ofPath (disk : Disk) :
    (∀ path : Path,
      path.isBuildFile = true ↔ Dialect.ofPath path ≠ .generic ∧ path.name ≠ ".bzl") ∧
    ∀ (directory : Path) (place names : List String) (bytes : ByteArray) (deep : Bool),
      disk.place directory = .ok place → disk.at? place = some .directory →
      names ≠ [] → disk.at? (place ++ names) = some (.file bytes) →
      (deep = true ∨ names.length = 1) →
      (directory.append names ∈ disk.discover [directory] deep ↔
        Dialect.ofPath (directory.append names) ≠ .generic ∧
          (directory.append names).name ≠ ".bzl") := by
  refine ⟨Path.isBuildFile_iff, ?_⟩
  intro directory place names bytes deep hplace hdirectory hne hfile hdeep
  rw [discover_singleton, filesAt_directory hplace hdirectory, mem_buildFiles,
    ← Path.isBuildFile_iff]
  constructor
  · rintro ⟨-, -, -, -, -, -, hbuild⟩
    exact hbuild
  · intro hbuild
    exact ⟨names, bytes, hne, (mem_entries_iff hne).mpr hfile, hdeep, rfl, hbuild⟩

/-- A disk with two files that end alike. -/
def Disk.twoEndings : Disk where
  entries :=
    [(["pkg"], .directory), (["pkg", ".bzl"], .file ⟨#[]⟩), (["pkg", ".a.bzl"], .file ⟨#[]⟩)]
  distinct := by decide

/-- Both are extension files by their names, and one of them is not found. -/
theorem Disk.found_iff_ofPath_twoEndings :
    twoEndings.place ⟨.here, ["pkg"]⟩ = .ok ["pkg"] ∧
      twoEndings.at? ["pkg"] = some .directory ∧
      twoEndings.at? ["pkg", ".bzl"] = some (.file ⟨#[]⟩) ∧
      twoEndings.at? ["pkg", ".a.bzl"] = some (.file ⟨#[]⟩) ∧
      Dialect.ofPath ⟨.here, ["pkg", ".bzl"]⟩ = .bzl ∧
      Dialect.ofPath ⟨.here, ["pkg", ".a.bzl"]⟩ = .bzl ∧
      ⟨.here, ["pkg", ".bzl"]⟩ ∉ twoEndings.discover [⟨.here, ["pkg"]⟩] ∧
      ⟨.here, ["pkg", ".a.bzl"]⟩ ∈ twoEndings.discover [⟨.here, ["pkg"]⟩] := by
  have hplace : twoEndings.place ⟨.here, ["pkg"]⟩ = .ok ["pkg"] := by rfl
  have hdirectory : twoEndings.at? ["pkg"] = some .directory := by rfl
  have hbare : twoEndings.at? ["pkg", ".bzl"] = some (.file ⟨#[]⟩) := by rfl
  have hmore : twoEndings.at? ["pkg", ".a.bzl"] = some (.file ⟨#[]⟩) := by rfl
  have hfound := (found_iff_ofPath twoEndings).2 ⟨.here, ["pkg"]⟩ ["pkg"]
  refine ⟨hplace, hdirectory, hbare, hmore, by decide, by decide, ?_, ?_⟩
  · intro hmem
    have hname :=
      (hfound [".bzl"] ⟨#[]⟩ false hplace hdirectory (by decide) hbare (.inr rfl)).mp hmem
    exact hname.2 rfl
  · exact (hfound [".a.bzl"] ⟨#[]⟩ false hplace hdirectory (by decide) hmore (.inr rfl)).mpr
      ⟨by decide, by decide⟩

end StarlarkLint
