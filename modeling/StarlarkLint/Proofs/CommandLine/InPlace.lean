import StarlarkLint.CommandLine.Lint
import StarlarkLint.Proofs.Check.Visible
import StarlarkLint.Yaml.Load

/-!
# Files that a run rewrites

A run that fixes in place writes to files only that it has read and found something to fix in.  It
never makes a file or removes one, so that paths lead where they led before, and a file that is
reviewed twice is seen the second time as the first review left it.  A file that is reviewed once
ends with its fixed text.  Whatever else is on the disk stays as it is.

## Main definitions

* `Disk.Fixable` — there is something to fix in a file, and a check that fixes it.
* `Disk.SameShape` — two disks with files and directories in the same places.
* `Lint.Left` — what writing left at a place, the disk having kept its shape.

## Main results

* `Disk.SameShape.write` — writing to a file keeps the shape of a disk.
* `Lint.Left.review`, `Lint.Left.rewrite` — what one review leaves at a place.
* `Lint.written_preserves` — what every review in a run preserves, the run preserves.
* `Lint.rewrites_iff_fixable` — which files have a fixed text, which end with it, and which are left
  alone.
-/

namespace StarlarkLint

namespace Disk

/-- A file can be read, it is a package description, members of the native module are checked, and
it names one that is a global name too. -/
def Fixable (disk : Disk) (settings : Settings) (path : Path) : Prop :=
  ∃ f, SourceFile.read disk path (some (settings.dialect.getD (.ofPath path))) = .ok f ∧
    settings.dialect.getD (.ofPath path) = .build ∧ .nativeBuild ∈ settings.checks ∧
      ∃ s s' name, .member s (.ident s' "native") name ∈ f.node.nodes ∧
        name ∉ ["existing_rule", "existing_rules"]

theorem fixable_iff {disk : Disk} {settings : Settings} {path : Path} {f : SourceFile}
    (h : SourceFile.read disk path (some (settings.dialect.getD (.ofPath path))) = .ok f) :
    disk.Fixable settings path ↔ f.NamesNative ∧ .nativeBuild ∈ settings.checks := by
  obtain ⟨source, hsource⟩ := exists_parse_of_read h
  have hdialect := dialect_of_parse hsource
  constructor
  · rintro ⟨g, hg, hbuild, hmem, hnames⟩
    rw [h, Except.ok.injEq] at hg
    subst hg
    exact ⟨⟨hdialect.trans hbuild, hnames⟩, hmem⟩
  · rintro ⟨⟨hbuild, hnames⟩, hmem⟩
    exact ⟨f, h, hdialect.symm.trans hbuild, hmem, hnames⟩

/-- A review has a fixed text exactly if there is something to fix. -/
theorem review_fixed_iff_fixable (disk : Disk) (settings : Settings) (path : Path) :
    (disk.review settings true path).fixed.isSome ↔ disk.Fixable settings path := by
  cases h : SourceFile.read disk path (some (settings.dialect.getD (.ofPath path))) with
  | error e =>
    have hnone : (disk.review settings true path).fixed = none := by simp only [review, h]
    rw [hnone]
    refine iff_of_false Bool.false_ne_true ?_
    rintro ⟨f, hf, -⟩
    rw [h] at hf
    cases hf
  | ok f => exact (review_fixed_isSome_iff h).2.trans (fixable_iff h).symm

/-! ### Disks of one shape -/

/-- The disks have files and directories in the same places, though what is in the files may
differ. -/
structure SameShape (disk other : Disk) : Prop where
  /-- They are seen from the same place. -/
  working : other.working = disk.working
  /-- Where there is a file or a directory, there is one on the other. -/
  entries : ∀ place, (other.at? place).map Entry.isFile = (disk.at? place).map Entry.isFile

variable {disk other : Disk}

theorem SameShape.refl (disk : Disk) : disk.SameShape disk := ⟨rfl, fun _ => rfl⟩

theorem SameShape.follow_eq (h : disk.SameShape other) (path : Path) (place : List String)
    (names : List String) : other.follow path place names = disk.follow path place names := by
  induction names generalizing place with
  | nil => rfl
  | cons name names ih =>
    have hplace := h.entries place
    cases hother : other.at? place with
    | none =>
      cases hdisk : disk.at? place with
      | none => simp only [follow, hother, hdisk]
      | some entry => simp [hother, hdisk] at hplace
    | some entry =>
      cases hdisk : disk.at? place with
      | none => simp [hother, hdisk] at hplace
      | some entry' =>
        rw [hother, hdisk, Option.map_some, Option.map_some, Option.some.injEq] at hplace
        cases entry <;> cases entry' <;> simp_all [follow, Entry.isFile]

/-- **Paths lead to the same places.** -/
theorem SameShape.place_eq (h : disk.SameShape other) (path : Path) :
    other.place path = disk.place path := by
  rw [place, place, h.working, h.follow_eq]

/-- Paths that lead to something lead to something on both disks. -/
theorem SameShape.exists?_eq (h : disk.SameShape other) (path : Path) :
    other.exists? path = disk.exists? path := by
  unfold exists? entry?
  rw [h.place_eq]
  cases disk.place path with
  | error e => rfl
  | ok place => simpa using congrArg Option.isSome (h.entries place)

/-- A file that is the same on both disks is read the same. -/
theorem SameShape.read_eq (h : disk.SameShape other) {path : Path} {place : List String}
    (hpath : disk.place path = .ok place) (hplace : other.at? place = disk.at? place) :
    other.read path = disk.read path := by
  have hother : other.place path = .ok place := (h.place_eq path).trans hpath
  simp only [read, hother, hpath, bind, Except.bind, hplace]

/-- A path that can be read leads to a file. -/
theorem exists_place_of_read {path : Path} {bytes : ByteArray} (h : disk.read path = .ok bytes) :
    ∃ place, disk.place path = .ok place ∧ place ≠ [] ∧ disk.at? place = some (.file bytes) := by
  rw [read, bind_eq_ok_iff] at h
  obtain ⟨place, hplace, h⟩ := h
  split at h
  · next hfile =>
    cases h
    refine ⟨place, hplace, ?_, hfile⟩
    rintro rfl
    cases hfile
  · cases h
  · cases h

/-- **Writing to a file that can be read keeps the shape of a disk.** -/
theorem SameShape.write (h : disk.SameShape other) {path : Path} {bytes : ByteArray}
    (hread : other.read path = .ok bytes) (new : ByteArray) :
    disk.SameShape (other.write path new) := by
  obtain ⟨place, hplace, hne, hfile⟩ := exists_place_of_read hread
  have hwrite : other.write path new = other.put place (.file new) := by
    rw [Disk.write, hplace]
  rw [hwrite]
  refine ⟨h.working, fun at' => ?_⟩
  rw [← h.entries at']
  by_cases hat : at' = place
  · subst hat
    rw [at?_put_self _ hne, hfile]
    rfl
  · rw [at?_put_of_ne _ hat]

/-- Writing to a file changes what is at its place only. -/
theorem at?_write_of_ne {path : Path} {place : List String} (h : disk.place path ≠ .ok place)
    (bytes : ByteArray) : (disk.write path bytes).at? place = disk.at? place := by
  unfold write
  split
  · next other hother =>
    refine at?_put_of_ne _ ?_
    rintro rfl
    exact h hother
  · rfl

theorem afterWriting_append_singleton (files : List (Path × String)) (path : Path) (text : String) :
    disk.afterWriting (files ++ [(path, text)]) =
      (disk.afterWriting files).write path (Text.encode text) := by
  rw [afterWriting, List.foldl_append]
  rfl

/-! ### Reviews -/

/-- A path whose bytes are the same on both disks is parsed the same. -/
theorem read_congr {path : Path} (h : other.read path = disk.read path)
    (dialect : Option Dialect) :
    SourceFile.read other path dialect = SourceFile.read disk path dialect := by
  rw [SourceFile.read, SourceFile.read, readSource, readSource, h]

/-- A file that is read the same has the same review. -/
theorem review_congr {path : Path} (h : other.read path = disk.read path) (settings : Settings)
    (fix : Bool) : other.review settings fix path = disk.review settings fix path := by
  rw [review, review, read_congr h]

/-- A file that is read the same is fixable on both disks or on neither. -/
theorem Fixable.congr {settings : Settings} {path : Path} (h : other.read path = disk.read path)
    (hfixable : other.Fixable settings path) : disk.Fixable settings path := by
  obtain ⟨f, hf, hcond⟩ := hfixable
  exact ⟨f, (read_congr h _).symm.trans hf, hcond⟩

theorem Fixable.exists_read {settings : Settings} {path : Path} (h : disk.Fixable settings path) :
    ∃ bytes, disk.read path = .ok bytes := by
  obtain ⟨f, hf, -⟩ := h
  rw [SourceFile.read, bind_eq_ok_iff] at hf
  obtain ⟨source, hsource, -⟩ := hf
  rw [readSource] at hsource
  cases hread : disk.read path with
  | error e =>
    rw [hread] at hsource
    cases hsource
  | ok bytes => exact ⟨bytes, rfl⟩

/-- A path that can be read leads to something. -/
theorem exists?_of_read {path : Path} {bytes : ByteArray} (h : disk.read path = .ok bytes) :
    disk.exists? path = true := by
  obtain ⟨place, hplace, -, hfile⟩ := exists_place_of_read h
  simp only [exists?, entry?, hplace, hfile, Option.isSome_some]

@[simp] theorem path_review (settings : Settings) (fix : Bool) (path : Path) :
    (disk.review settings fix path).path = path := by
  unfold review
  split <;> rfl

theorem fixed_review_false (settings : Settings) (path : Path) :
    (disk.review settings false path).fixed = none := by
  unfold review
  split <;> rfl

/-- A review with a fixed text was asked to fix, and there is something to fix. -/
theorem fixable_of_review {settings : Settings} {fix : Bool} {path : Path} {text : String}
    (h : (disk.review settings fix path).fixed = some text) :
    fix = true ∧ disk.Fixable settings path := by
  cases fix with
  | false =>
    rw [fixed_review_false] at h
    cases h
  | true =>
    refine ⟨rfl, (review_fixed_iff_fixable disk settings path).mp ?_⟩
    rw [h, Option.isSome_some]

end Disk

/-! ### Runs -/

namespace Lint

variable {options : Options} {settings : Settings} {disk : Disk} {written : List (Path × String)}
  {place : List String} {found : Option Disk.Entry} {path : Path} {text : String}

/-- Nothing is written but by a run that comes to something, and what it comes to says so. -/
theorem written_outcome {run : Run} {outcome : Outcome} (h : run.outcome options = .ok outcome) :
    outcome.written = run.written := by
  cases run with
  | failed fault => cases h
  | refused reason log => cases h; rfl
  | missing path done => cases h; rfl
  | finished done => cases h; rfl

/-- A review adds nothing to what was written, or its fixed text. -/
theorem written_add (options : Options) (review : Review) (log : List LogEntry) (done : Progress) :
    (done.add options review log).written = done.written ∨
      ∃ text, review.fixed = some text ∧
        (done.add options review log).written = done.written ++ [(review.path, text)] := by
  unfold Progress.add
  cases review.fixed with
  | none => exact .inl rfl
  | some text =>
    by_cases hplace : options.inPlace
    · exact .inr ⟨text, rfl, by simp [hplace]⟩
    · by_cases hjson : options.json
      · simp [hplace, hjson]
      · simp [hplace, hjson]

/-- In a run in place, it adds its fixed text. -/
theorem written_add_inPlace (hplace : options.inPlace = true) {review : Review}
    (hfixed : review.fixed = some text) (log : List LogEntry) (done : Progress) :
    (done.add options review log).written = done.written ++ [(review.path, text)] := by
  simp [Progress.add, hfixed, hplace]

section

variable {P : List (Path × String) → Prop} {paths : List Path} {done : Progress}

/-- What writing the fixed text of a file preserves, its review preserves. -/
theorem written_add_preserves
    (hstep : ∀ text, ((disk.afterWriting done.written).review settings options.fix path).fixed =
      some text → P (done.written ++ [(path, text)])) (hdone : P done.written)
    (log : List LogEntry) :
    P (done.add options ((disk.afterWriting done.written).review settings options.fix path)
      log).written := by
  rcases written_add options ((disk.afterWriting done.written).review settings options.fix path)
    log done with hsame | ⟨text, hfixed, happend⟩
  · rw [hsame]
    exact hdone
  · rw [happend, Disk.path_review]
    exact hstep text hfixed

/-- **What every review in a run preserves, the run preserves.** -/
theorem written_preserves
    (hstep : ∀ written, P written → ∀ path ∈ paths, ∀ text,
      ((disk.afterWriting written).review settings options.fix path).fixed = some text →
        P (written ++ [(path, text)])) (hdone : P done.written) :
    P (reviewAll options settings disk done paths).written := by
  induction paths generalizing done with
  | nil => exact hdone
  | cons path paths ih =>
    rw [reviewAll]
    dsimp only
    split
    · refine ih (fun written hwritten path' hpath' => ?_) ?_
      · exact hstep written hwritten path' (List.mem_cons_of_mem path hpath')
      · exact written_add_preserves (hstep _ hdone path List.mem_cons_self) hdone _
    · exact hdone

/-- A run over paths that exist goes on with those behind them, and what every review preserves
holds when it comes there. -/
theorem reviewAll_append
    (hexist : ∀ written, P written → ∀ path ∈ paths, (disk.afterWriting written).exists? path)
    (hstep : ∀ written, P written → ∀ path ∈ paths, ∀ text,
      ((disk.afterWriting written).review settings options.fix path).fixed = some text →
        P (written ++ [(path, text)])) (hdone : P done.written) (more : List Path) :
    ∃ done', P done'.written ∧ reviewAll options settings disk done (paths ++ more) =
      reviewAll options settings disk done' more := by
  induction paths generalizing done with
  | nil => exact ⟨done, hdone, rfl⟩
  | cons path paths ih =>
    rw [List.cons_append, reviewAll]
    dsimp only
    rw [if_pos (hexist _ hdone path List.mem_cons_self)]
    refine ih (fun written hwritten path' hpath' => ?_) (fun written hwritten path' hpath' => ?_) ?_
    · exact hexist written hwritten path' (List.mem_cons_of_mem path hpath')
    · exact hstep written hwritten path' (List.mem_cons_of_mem path hpath')
    · exact written_add_preserves (hstep _ hdone path List.mem_cons_self) hdone _

end

/-! ### What is left at a place -/

/-- What was written left paths leading where they led, and an entry at a place, or none. -/
structure Left (disk : Disk) (place : List String) (found : Option Disk.Entry)
    (written : List (Path × String)) : Prop where
  /-- Paths lead where they led. -/
  shape : disk.SameShape (disk.afterWriting written)
  /-- The entry at the place. -/
  at?_eq : (disk.afterWriting written).at? place = found

theorem Left.nil (disk : Disk) (place : List String) : Left disk place (disk.at? place) [] :=
  ⟨.refl disk, rfl⟩

/-- Paths that exist go on to exist. -/
theorem Left.exists?_of_exists? (h : Left disk place found written)
    (hpath : disk.exists? path = true) : (disk.afterWriting written).exists? path = true := by
  rw [h.shape.exists?_eq, hpath]

/-- Writing the fixed text of a file keeps the shape of the disk. -/
theorem Left.shape_append (h : Left disk place found written) {fix : Bool}
    (hfixed : ((disk.afterWriting written).review settings fix path).fixed = some text) :
    disk.SameShape (disk.afterWriting (written ++ [(path, text)])) := by
  obtain ⟨bytes, hread⟩ := (Disk.fixable_of_review hfixed).2.exists_read
  rw [Disk.afterWriting_append_singleton]
  exact h.shape.write hread _

/-- **A review of a file that is not at the place, or is not fixable**, leaves there what there
is. -/
theorem Left.review (h : Left disk place found written)
    (hpath : disk.place path = .ok place → ¬ (disk.afterWriting written).Fixable settings path)
    {fix : Bool}
    (hfixed : ((disk.afterWriting written).review settings fix path).fixed = some text) :
    Left disk place found (written ++ [(path, text)]) := by
  refine ⟨h.shape_append hfixed, ?_⟩
  rw [Disk.afterWriting_append_singleton, Disk.at?_write_of_ne _ _, h.at?_eq]
  rw [h.shape.place_eq]
  exact fun hleads => hpath hleads (Disk.fixable_of_review hfixed).2

/-- **A review of the file at the place** leaves its fixed text there. -/
theorem Left.rewrite (h : Left disk place found written) (hpath : disk.place path = .ok place)
    {fix : Bool}
    (hfixed : ((disk.afterWriting written).review settings fix path).fixed = some text) :
    Left disk place (some (.file (Text.encode text))) (written ++ [(path, text)]) := by
  refine ⟨h.shape_append hfixed, ?_⟩
  obtain ⟨bytes, hread⟩ := (Disk.fixable_of_review hfixed).2.exists_read
  obtain ⟨place', hplace', hne, -⟩ := Disk.exists_place_of_read hread
  obtain rfl : place' = place := Except.ok.inj
    (hplace'.symm.trans ((h.shape.place_eq path).trans hpath))
  have hwrite : (disk.afterWriting written).write path (Text.encode text) =
      (disk.afterWriting written).put place' (.file (Text.encode text)) := by
    rw [Disk.write, hplace']
  rw [Disk.afterWriting_append_singleton, hwrite, Disk.at?_put_self _ hne]

section

variable {loader : Loader} {search : List Path} {environment : Environment}

/-- A run leaves alone what is at a place, unless one of its paths leads there and the file is
fixable. -/
theorem at?_run_of_not_fixable
    (hplace : ∀ settings, Lint.settings loader disk search environment options = .ok settings →
      ∀ path ∈ disk.discover options.paths options.deep, disk.place path = .ok place →
        ¬ disk.Fixable settings path) :
    (disk.afterWriting (run loader disk search environment options).written).at? place =
      disk.at? place := by
  unfold run
  cases hsettings : Lint.settings loader disk search environment options with
  | error failure => cases failure <;> rfl
  | ok settings =>
    -- a path that leads to the place would be fixable from the beginning
    have hstep : ∀ written, Left disk place (disk.at? place) written →
        ∀ path ∈ disk.discover options.paths options.deep, ∀ text,
          ((disk.afterWriting written).review settings options.fix path).fixed = some text →
            Left disk place (disk.at? place) (written ++ [(path, text)]) :=
      fun written hleft path hpath text hfixed => hleft.review
        (fun hleads hfixable => hplace settings hsettings path hpath hleads
          (hfixable.congr (hleft.shape.read_eq hleads hleft.at?_eq))) hfixed
    exact (written_preserves hstep (.nil disk place)).at?_eq

/-- A run in place leaves a fixable file that one of its paths leads to with its fixed text. -/
theorem at?_run_of_fixable
    (hsettings : Lint.settings loader disk search environment options = .ok settings)
    (hfix : options.fix = true) (hinPlace : options.inPlace = true) {before after : List Path}
    (hpaths : disk.discover options.paths options.deep = before ++ path :: after)
    (hexist : ∀ other ∈ before, disk.exists? other = true) (hplace : disk.place path = .ok place)
    (honce : ∀ other ∈ before ++ after, disk.place other ≠ .ok place)
    (hfixed : (disk.review settings true path).fixed = some text) :
    (disk.afterWriting (run loader disk search environment options).written).at? place =
      some (.file (Text.encode text)) := by
  rw [List.forall_mem_append] at honce
  have hrun : run loader disk search environment options =
      reviewAll options settings disk
        { log := settingsLog loader disk search options } (before ++ path :: after) := by
    simp only [run, hsettings, hpaths]
  obtain ⟨done, hdone, hreviewAll⟩ : ∃ done : Progress,
      Left disk place (disk.at? place) done.written ∧
        reviewAll options settings disk { log := settingsLog loader disk search options }
          (before ++ path :: after) = reviewAll options settings disk done (path :: after) :=
    reviewAll_append
      (fun written hleft other hother => hleft.exists?_of_exists? (hexist other hother))
      (fun written hleft other hother text =>
        hleft.review fun hleads => absurd hleads (honce.1 other hother))
      (.nil disk place) (path :: after)
  -- when the run comes to the file, the file is what it was
  have hread : (disk.afterWriting done.written).read path = disk.read path :=
    hdone.shape.read_eq hplace hdone.at?_eq
  have hnow : ((disk.afterWriting done.written).review settings options.fix path).fixed =
      some text := by
    rw [Disk.review_congr hread, hfix, hfixed]
  obtain ⟨bytes, hbytes⟩ := (Disk.fixable_of_review hnow).2.exists_read
  rw [hrun, hreviewAll, reviewAll]
  dsimp only
  rw [if_pos (Disk.exists?_of_read hbytes)]
  have hleft : Left disk place (some (.file (Text.encode text)))
      (done.add options ((disk.afterWriting done.written).review settings options.fix path)
        ((disk.afterWriting done.written).reviewLog settings options.fix path)).written := by
    rw [written_add_inPlace hinPlace hnow, Disk.path_review]
    exact hdone.rewrite hplace hnow
  -- no path behind it leads there
  exact (written_preserves (fun written hwritten other hother text =>
    hwritten.review fun hleads => absurd hleads (honce.2 other hother)) hleft).at?_eq

end

/-- **A file is rewritten exactly when there is something to fix.**  A review lays out every file
that it can read, and has a fixed text if and only if the file is fixable.  So what a run has
written, which is what its outcome says, leaves alone what is at a place, unless one of its paths
leads there and the file is fixable; and a run in place that comes to such a file once leaves it
with its fixed text. -/
theorem rewrites_iff_fixable (loader : Loader) (disk : Disk) :
    (∀ settings path, ((disk.review settings true path).fixed.isSome ↔
        disk.Fixable settings path) ∧
      ∀ f, SourceFile.read disk path (some (settings.dialect.getD (.ofPath path))) = .ok f →
        ∃ before after, f.render = .ok before ∧
          (Check.runAll settings.exempt true f settings.checks).file.render = .ok after) ∧
      ∀ search environment options,
        (∀ outcome, (run loader disk search environment options).outcome options = .ok outcome →
          outcome.written = (run loader disk search environment options).written) ∧
        ∀ place,
          ((∀ settings, Lint.settings loader disk search environment options = .ok settings →
            ∀ path ∈ disk.discover options.paths options.deep, disk.place path = .ok place →
              ¬ disk.Fixable settings path) →
          (disk.afterWriting (run loader disk search environment options).written).at? place =
            disk.at? place) ∧
          ∀ settings before path after,
            Lint.settings loader disk search environment options = .ok settings →
            options.fix = true → options.inPlace = true →
            disk.discover options.paths options.deep = before ++ path :: after →
            (∀ other ∈ before, disk.exists? other = true) → disk.place path = .ok place →
            (∀ other ∈ before ++ after, disk.place other ≠ .ok place) →
            disk.Fixable settings path →
            ∃ text, (disk.review settings true path).fixed = some text ∧
              (disk.afterWriting (run loader disk search environment options).written).at? place =
                some (.file (Text.encode text)) := by
  refine ⟨fun settings path => ⟨disk.review_fixed_iff_fixable settings path, fun f hf =>
    (Disk.review_fixed_isSome_iff hf).1⟩, fun search environment options =>
      ⟨fun outcome => written_outcome, fun place => ⟨at?_run_of_not_fixable, ?_⟩⟩⟩
  intro settings before path after hsettings hfix hinPlace hpaths hexist hplace honce hfixable
  obtain ⟨text, hfixed⟩ :=
    Option.isSome_iff_exists.mp ((disk.review_fixed_iff_fixable settings path).mpr hfixable)
  exact ⟨text, hfixed,
    at?_run_of_fixable hsettings hfix hinPlace hpaths hexist hplace honce hfixed⟩

/-- A package description and an extension file that both use the native module. -/
def nativeFiles : Disk :=
  { entries := [(["BUILD"], .file (Text.encode "native.x\n")),
      (["a.bzl"], .file (Text.encode "native.x\n"))] }

/-- A run that replaces uses of the native module in both files. -/
def fixNative : Options :=
  { paths := [⟨.here, ["BUILD"]⟩, ⟨.here, ["a.bzl"]⟩], fix := true, inPlace := true
    warnings := some (some "native-build") }

set_option maxRecDepth 4000 in
/-- Of two files that use the native module, the package description is fixable and ends fixed; the
extension file stays as it is in a run over both. -/
theorem rewrites_package_only :
    let settings : Settings := ⟨[.nativeBuild], PositionalArgs.exempt, none, none⟩
    let left := nativeFiles.afterWriting (run Yaml.loader nativeFiles [] {} fixNative).written
    Lint.settings Yaml.loader nativeFiles [] {} fixNative = .ok settings ∧
      (nativeFiles.review settings true ⟨.here, ["BUILD"]⟩).fixed = some "x\n" ∧
      nativeFiles.Fixable settings ⟨.here, ["BUILD"]⟩ ∧
      left.at? ["BUILD"] = some (.file (Text.encode "x\n")) ∧
      left.at? ["a.bzl"] = some (.file (Text.encode "native.x\n")) := by
  have hsettings : Lint.settings Yaml.loader nativeFiles [] {} fixNative =
      .ok ⟨[.nativeBuild], PositionalArgs.exempt, none, none⟩ := by cbv
  have hfixed : (nativeFiles.review ⟨[.nativeBuild], PositionalArgs.exempt, none, none⟩ true
      ⟨.here, ["BUILD"]⟩).fixed = some "x\n" := by cbv
  have hpaths : nativeFiles.discover fixNative.paths fixNative.deep =
      [] ++ ⟨.here, ["BUILD"]⟩ :: [⟨.here, ["a.bzl"]⟩] := by cbv
  have hbuild : nativeFiles.place ⟨.here, ["BUILD"]⟩ = .ok ["BUILD"] := by cbv
  have hextension : nativeFiles.place ⟨.here, ["a.bzl"]⟩ = .ok ["a.bzl"] := by cbv
  obtain ⟨hiff, hrun⟩ := rewrites_iff_fixable Yaml.loader nativeFiles
  have hfixable : nativeFiles.Fixable ⟨[.nativeBuild], PositionalArgs.exempt, none, none⟩
      ⟨.here, ["BUILD"]⟩ := (hiff _ _).1.mp (by rw [hfixed]; rfl)
  refine ⟨hsettings, hfixed, hfixable, ?_, ?_⟩
  · have honce : ∀ other ∈ [] ++ [⟨.here, ["a.bzl"]⟩], nativeFiles.place other ≠ .ok ["BUILD"] := by
      rw [List.nil_append, List.forall_mem_singleton, hextension]
      decide
    obtain ⟨text, htext, hleft⟩ := ((hrun [] {} fixNative).2 ["BUILD"]).2 _ _ _ _ hsettings rfl rfl
      hpaths (by simp) hbuild honce hfixable
    obtain rfl : "x\n" = text := Option.some.inj (hfixed.symm.trans htext)
    exact hleft
  · refine (((hrun [] {} fixNative).2 ["a.bzl"]).1 ?_).trans rfl
    intro settings hload path hpath hplace hfixable
    rw [hsettings, Except.ok.injEq] at hload
    subst hload
    rw [hpaths, List.nil_append, List.mem_cons, List.mem_singleton] at hpath
    obtain rfl | rfl := hpath
    · rw [hbuild, Except.ok.injEq] at hplace
      exact absurd hplace (by decide)
    · -- the path tells the dialect, in which there is nothing to fix
      obtain ⟨f, -, hdialect, -⟩ := hfixable
      cases hdialect

end Lint

end StarlarkLint
