import Mathlib
import StarlarkLint.Proofs.Check.Category
import StarlarkLint.Proofs.Check.Session
import StarlarkLint.Proofs.Layout.Dots
import StarlarkLint.Proofs.Review

/-!
# Nothing fails behind the reader

A layout fails at an empty slot, at a file inside a file and at an unknown operator, and a run of
checks fails at an unknown category.  What was read has none of these: its statements can be
spelled, and the fix leaves statements that can be spelled but for their names, which is all that a
layout asks for.  The categories of settings are those of checks.  So a review either fails at the
reading, and then there is nothing else to it, or it does not fail.

## Main results

* `SourceFile.exists_render_fileAfter` — a file that was read has a layout after any sequence of
  requests.
* `Disk.review_of_parse_eq_ok`, `Disk.review_of_parse_eq_error` — what a review comes to if the text
  of the file is read, and if it is not.
* `Disk.nothing_fails_behind_parse` — checks and layouts succeed from there on.
-/

namespace StarlarkLint

open Node

/-! ### Files that were read -/

section

variable {source path : String} {dialect : Option Dialect} {f : SourceFile}

/-- The statements of a file that was read can be spelled, and so they can whatever names count. -/
theorem SourceFile.isStatement_anyName_of_parse
    (hparse : SourceFile.parse source path dialect = .ok f) :
    ∀ n ∈ f.statements, n.IsStatement AnyName := by
  intro n hn
  exact (isStatement_of_parse hparse n hn).restrict fun _ _ => trivial

/-- So they can after any sequence of requests. -/
theorem SourceFile.isStatement_fileAfter
    (hparse : SourceFile.parse source path dialect = .ok f) (rs : List Request) :
    ∀ n ∈ (Request.fileAfter f rs).statements, n.IsStatement AnyName :=
  Request.fileAfter_preserves (P := fun f => ∀ n ∈ f.statements, n.IsStatement AnyName)
    (fun _ => Native.fix_isStatement) rs (isStatement_anyName_of_parse hparse)

/-- **A file that was read has a layout after any sequence of requests.** -/
theorem SourceFile.exists_render_fileAfter
    (hparse : SourceFile.parse source path dialect = .ok f) (rs : List Request)
    (options : LayoutOptions) : ∃ text, (Request.fileAfter f rs).render options = .ok text :=
  SourceFile.exists_render options (isStatement_fileAfter hparse rs)

/-- The file that checks in a row leave has a layout. -/
theorem SourceFile.exists_render_runAll
    (hparse : SourceFile.parse source path dialect = .ok f) (exempt : List String) (fix : Bool)
    (checks : List Check) : ∃ text, (Check.runAll exempt fix f checks).file.render = .ok text := by
  have hafter := Check.runAll_preserves (P := fun f => ∀ n ∈ f.statements, n.IsStatement AnyName)
    (fun _ => Native.fix_isStatement) exempt fix checks (isStatement_anyName_of_parse hparse)
  exact SourceFile.exists_render {} hafter

end

/-- The checks of settings run under their names. -/
theorem SourceFile.lint_settings (f : SourceFile) (settings : Settings) (fix : Bool) :
    f.lint (settings.checks.map Check.name) fix settings.exempt =
      .ok (Check.runAll settings.exempt fix f settings.checks) := by
  have hnames : Check.ofNames (settings.checks.map Check.name) = .ok settings.checks :=
    Check.ofNames_eq_ok_iff.mpr rfl
  rw [SourceFile.lint, hnames]
  rfl

/-! ### Reviews -/

namespace Disk

variable {disk : Disk} {path : Path} {bytes : ByteArray}

theorem read_of_parse {dialect : Option Dialect} (hread : disk.read path = .ok bytes) :
    SourceFile.read disk path dialect =
      (SourceFile.parse (Text.decodeSource bytes) path.text dialect).mapError .syntactic := by
  simp only [SourceFile.read, readSource, hread, Except.map, Except.mapError, bind, Except.bind]

/-- **If the text of the file is read**, the review reports what the checks meet, and, asked to fix,
has the text of the file that they leave unless it is the text of the file that was read. -/
theorem review_of_parse_eq_ok {settings : Settings} {f : SourceFile}
    (hread : disk.read path = .ok bytes)
    (hparse : SourceFile.parse (Text.decodeSource bytes) path.text
      (some (settings.dialect.getD (.ofPath path))) = .ok f) (fix : Bool) :
    ∃ checked before after,
      f.lint (settings.checks.map Check.name) fix settings.exempt = .ok checked ∧
      f.render = .ok before ∧ checked.file.render = .ok after ∧
      disk.review settings fix path =
        { path, findings := checked.findings,
          fixed := if fix = true ∧ after ≠ before then some after else none, error := none } := by
  obtain ⟨before, hbefore⟩ := SourceFile.exists_render_fileAfter hparse [] {}
  obtain ⟨after, hafter⟩ :=
    SourceFile.exists_render_runAll hparse settings.exempt fix settings.checks
  refine ⟨_, before, after, f.lint_settings settings fix, hbefore, hafter, ?_⟩
  rw [Request.fileAfter] at hbefore
  have hfile : SourceFile.read disk path (some (settings.dialect.getD (.ofPath path))) = .ok f := by
    rw [read_of_parse hread, hparse]
    rfl
  cases fix with
  | false => simp only [review, hfile, Bool.false_eq_true, if_false, false_and]
  | true =>
    simp only [review, hfile, if_true, changedLayout, hbefore, hafter, ne_eq, true_and, ite_not]

/-- **If it is not**, the review has the reason and nothing else. -/
theorem review_of_parse_eq_error {settings : Settings} {e : SyntaxError}
    (hread : disk.read path = .ok bytes)
    (hparse : SourceFile.parse (Text.decodeSource bytes) path.text
      (some (settings.dialect.getD (.ofPath path))) = .error e) (fix : Bool) :
    disk.review settings fix path =
      { path, findings := [], fixed := none, error := some (.syntactic e) } := by
  have hfile : SourceFile.read disk path (some (settings.dialect.getD (.ofPath path))) =
      .error (.syntactic e) := by
    rw [read_of_parse hread, hparse]
    rfl
  simp only [review, hfile]

/-- **Behind the reader nothing fails.**  A file that was read, in any dialect, has a layout with
any options after any sequence of requests, and the checks of any settings run on it.  A review of a
file whose text is read therefore ends without an error, with the findings of those checks and,
asked to fix, with the layout of the file that they leave unless it is the one from before; and a
review of a file whose text is not read ends with the reason, no findings and no text. -/
theorem nothing_fails_behind_parse :
    (∀ (source path : String) (dialect : Option Dialect) (f : SourceFile),
      SourceFile.parse source path dialect = .ok f → ∀ requests : List Request,
        let g := Request.fileAfter f requests
        (∀ options, ∃ text, g.render options = .ok text) ∧
          ∀ (settings : Settings) (fix : Bool),
            g.lint (settings.checks.map Check.name) fix settings.exempt =
              .ok (Check.runAll settings.exempt fix g settings.checks)) ∧
    ∀ (disk : Disk) (path : Path) (bytes : ByteArray), disk.read path = .ok bytes →
      ∀ (settings : Settings) (fix : Bool),
        match SourceFile.parse (Text.decodeSource bytes) path.text
          (some (settings.dialect.getD (.ofPath path))) with
        | .ok f => ∃ checked before after,
            f.lint (settings.checks.map Check.name) fix settings.exempt = .ok checked ∧
            f.render = .ok before ∧ checked.file.render = .ok after ∧
            disk.review settings fix path =
              { path, findings := checked.findings,
                fixed := if fix = true ∧ after ≠ before then some after else none, error := none }
        | .error e => disk.review settings fix path =
            { path, findings := [], fixed := none, error := some (.syntactic e) } := by
  constructor
  · intro source path dialect f hparse requests
    refine ⟨SourceFile.exists_render_fileAfter hparse requests, fun settings fix => ?_⟩
    exact SourceFile.lint_settings _ settings fix
  · intro disk path bytes hread settings fix
    split
    · next f hparse => exact review_of_parse_eq_ok hread hparse fix
    · next e hparse => exact review_of_parse_eq_error hread hparse fix

set_option maxRecDepth 4000 in
/-- A member of the native module that is fixed, and a literal that is not closed. -/
theorem nothing_fails_behind_parse_native :
    let settings : Settings := ⟨[.nativeBuild, .starArgs], [], some .build, none⟩
    ∃ disk : Disk, ∃ f,
      disk.read ⟨.here, ["BUILD"]⟩ = .ok (Text.encode "native.x(*y)\n") ∧
      SourceFile.parse (Text.decodeSource (Text.encode "native.x(*y)\n")) "BUILD" (some .build) =
        .ok f ∧
      (∃ text, (Request.fileAfter f [⟨.nativeBuild, true, []⟩]).render {} = .ok text) ∧
      (disk.review settings true ⟨.here, ["BUILD"]⟩).error = none ∧
      disk.read ⟨.here, ["open"]⟩ = .ok (Text.encode "x = 'y") ∧
      disk.review settings true ⟨.here, ["open"]⟩ =
        { path := ⟨.here, ["open"]⟩, findings := [], fixed := none,
          error := some (.syntactic (.lexical ⟨.unterminatedString, ⟨1, 5⟩⟩)) } := by
  intro settings
  let disk : Disk :=
    { entries := [(["BUILD"], .file (Text.encode "native.x(*y)\n")),
        (["open"], .file (Text.encode "x = 'y"))] }
  let member : Node := .member ⟨⟨1, 1⟩, ⟨1, 9⟩⟩ (.ident ⟨⟨1, 1⟩, ⟨1, 7⟩⟩ "native") "x"
  let star : Node := .unary ⟨⟨1, 10⟩, ⟨1, 12⟩⟩ "*" (.ident ⟨⟨1, 11⟩, ⟨1, 12⟩⟩ "y")
  let f : SourceFile :=
    ⟨⟨⟨1, 1⟩, ⟨2, 1⟩⟩, "BUILD", .build, [.call ⟨⟨1, 1⟩, ⟨1, 13⟩⟩ member [star]]⟩
  have hread : disk.read ⟨.here, ["BUILD"]⟩ = .ok (Text.encode "native.x(*y)\n") := by cbv
  have hopen : disk.read ⟨.here, ["open"]⟩ = .ok (Text.encode "x = 'y") := by cbv
  have hparse : SourceFile.parse (Text.decodeSource (Text.encode "native.x(*y)\n")) "BUILD"
      (some .build) = .ok f := by cbv
  have hfail : SourceFile.parse (Text.decodeSource (Text.encode "x = 'y")) "open" (some .build) =
      .error (.lexical ⟨.unterminatedString, ⟨1, 5⟩⟩) := by cbv
  obtain ⟨hfiles, hreviews⟩ := nothing_fails_behind_parse
  refine ⟨disk, f, hread, hparse, (hfiles _ _ _ f hparse _).1 {}, ?_, hopen, ?_⟩
  · have hreview := hreviews disk _ _ hread settings true
    have hpath : (⟨.here, ["BUILD"]⟩ : Path).text = "BUILD" := by cbv
    rw [hpath] at hreview
    split at hreview
    · obtain ⟨checked, before, after, -, -, -, hreview⟩ := hreview
      rw [hreview]
    · next e he => cases hparse.symm.trans he
  · have hreview := hreviews disk _ _ hopen settings true
    have hpath : (⟨.here, ["open"]⟩ : Path).text = "open" := by cbv
    rw [hpath] at hreview
    split at hreview
    · next g hg => cases hfail.symm.trans hg
    · next e he =>
      cases hfail.symm.trans he
      exact hreview

end Disk

end StarlarkLint
