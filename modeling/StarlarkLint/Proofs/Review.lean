import Mathlib
import StarlarkLint.Proofs.Check.Native
import StarlarkLint.Proofs.Layout.File
import StarlarkLint.Review

/-!
# Fixed files

A review that fixes a file lays out the statements that the checks left.  Bare names stand there for
members of the native module, and where a name behind a dot may be any, a name at its own may be
neither reserved nor, in front of a parenthesis at the start of a statement, the name of the load
statement.  The text is read back as these statements exactly if no such name has come up.

## Main results

* `Disk.review_fixed_iff` — when a fixed file is read back as the checks left it.
-/

namespace StarlarkLint

open Node

theorem changedLayout_eq_some_iff {before after : SourceFile} {text : String} :
    changedLayout before after = some text ↔
      ∃ old, before.render = .ok old ∧ after.render = .ok text ∧ text ≠ old := by
  unfold changedLayout
  cases before.render with
  | error e => simp
  | ok old =>
    cases after.render with
    | error e => simp
    | ok new =>
      by_cases h : new = old
      · simp only [h, if_true, reduceCtorEq, Except.ok.injEq, false_iff]
        rintro ⟨_, rfl, rfl, hne⟩
        exact hne rfl
      · simp only [if_neg h, Option.some.injEq, Except.ok.injEq]
        constructor
        · rintro rfl
          exact ⟨old, rfl, rfl, h⟩
        · rintro ⟨_, -, rfl, -⟩
          rfl

/-- A file that was read is one that was parsed. -/
theorem exists_parse_of_read {disk : Disk} {path : Path} {dialect : Option Dialect}
    {f : SourceFile} (h : SourceFile.read disk path dialect = .ok f) :
    ∃ source, SourceFile.parse source path.text dialect = .ok f := by
  unfold SourceFile.read at h
  cases hsource : disk.readSource path with
  | error e => simp [hsource, Except.mapError, bind, Except.bind] at h
  | ok source =>
    refine ⟨source, ?_⟩
    cases hf : SourceFile.parse source path.text dialect with
    | error e => simp [hsource, hf, Except.mapError, bind, Except.bind] at h
    | ok g => simpa [hsource, hf, Except.mapError, bind, Except.bind] using h

/-- A file has the dialect that it was read in. -/
theorem dialect_of_parse {source path : String} {dialect : Dialect} {f : SourceFile}
    (h : SourceFile.parse source path (some dialect) = .ok f) : f.dialect = dialect := by
  obtain ⟨ts, -, hf⟩ := Grammar.parse_eq_ok_iff.mp h
  obtain ⟨r, -, rfl⟩ := Grammar.ofTokens_eq_ok_iff.mp hf
  rfl

/-- A review that fixes a file has read it as a package description. -/
theorem Disk.review_fixed_eq_some {disk : Disk} {settings : Settings} {path : Path} {text : String}
    (h : (disk.review settings true path).fixed = some text) :
    ∃ f, SourceFile.read disk path (some .build) = .ok f ∧
      (Check.runAll settings.exempt true f settings.checks).file.render = .ok text := by
  unfold Disk.review at h
  cases hf : SourceFile.read disk path (some (settings.dialect.getD (.ofPath path))) with
  | error e => simp [hf] at h
  | ok f =>
    simp only [hf, if_true] at h
    obtain ⟨old, hold, htext, hne⟩ := changedLayout_eq_some_iff.mp h
    by_cases hbuild : settings.dialect.getD (.ofPath path) = .build
    · rw [hbuild] at hf
      exact ⟨f, hf, htext⟩
    · -- in any other dialect there is nothing to fix
      obtain ⟨source, hsource⟩ := exists_parse_of_read hf
      have hdialect := dialect_of_parse hsource
      have hsame := Check.runAll_preserves (P := (· = f))
        (by rintro _ rfl; exact Native.fix_of_dialect_ne (by rwa [hdialect]))
        settings.exempt true settings.checks rfl
      rw [hsame, hold] at htext
      cases htext
      exact absurd rfl hne

/-- **A fixed file is read back as the checks left it exactly if no statement has come to start like
a load by accident and no name in use is reserved.** -/
theorem Disk.review_fixed_iff {disk : Disk} {settings : Settings} {path : Path} {text : String}
    (h : (disk.review settings true path).fixed = some text) :
    ∃ f, SourceFile.read disk path (some .build) = .ok f ∧
      ((∃ g, SourceFile.parse text path.text (some .build) = .ok g ∧
          bareAll g.statements =
            bareAll (Check.runAll settings.exempt true f settings.checks).file.statements) ↔
        ∀ n ∈ (Check.runAll settings.exempt true f settings.checks).file.statements,
          n.opensLoad = false ∧ ∀ name ∈ n.usedNames, name ∉ reservedWords) := by
  obtain ⟨f, hf, htext⟩ := review_fixed_eq_some h
  obtain ⟨source, hsource⟩ := exists_parse_of_read hf
  have hstatements : ∀ n ∈ f.statements, n.IsStatement AnyName := by
    intro n hn
    exact (isStatement_of_parse hsource n hn).restrict fun _ _ => trivial
  have hleft := Check.runAll_preserves (P := fun f => ∀ n ∈ f.statements, n.IsStatement AnyName)
    (fun _ => Native.fix_isStatement) settings.exempt true settings.checks hstatements
  exact ⟨f, hf, render_anyName_iff hleft htext path.text (some .build)⟩

set_option maxRecDepth 4000 in
/-- The load of the native module becomes a load statement. -/
theorem Disk.review_fixed_native_load :
    ∃ disk : Disk, disk.entries = [(["BUILD"], .file (Text.encode "native.load(\"x\")\n"))] ∧
      (disk.review ⟨[.nativeBuild], [], some .build, none⟩ true ⟨.here, ["BUILD"]⟩).fixed =
        some "load(\"x\")\n" ∧
      ∃ f, SourceFile.read disk ⟨.here, ["BUILD"]⟩ (some .build) = .ok f ∧
        ¬ ∃ g, SourceFile.parse "load(\"x\")\n" "BUILD" (some .build) = .ok g ∧
          bareAll g.statements =
            bareAll (Check.runAll [] true f [.nativeBuild]).file.statements := by
  let disk : Disk :=
    { entries := [(["BUILD"], .file (Text.encode "native.load(\"x\")\n"))] }
  let call (callee : Node) : Node :=
    .call ⟨⟨1, 1⟩, ⟨1, 17⟩⟩ callee [.string ⟨⟨1, 13⟩, ⟨1, 16⟩⟩ "x"]
  have hfixed :
      (disk.review ⟨[.nativeBuild], [], some .build, none⟩ true ⟨.here, ["BUILD"]⟩).fixed =
        some "load(\"x\")\n" := by cbv
  have hread : SourceFile.read disk ⟨.here, ["BUILD"]⟩ (some .build) =
      .ok ⟨⟨⟨1, 1⟩, ⟨2, 1⟩⟩, "BUILD", .build,
        [call (.member ⟨⟨1, 1⟩, ⟨1, 12⟩⟩ (.ident ⟨⟨1, 1⟩, ⟨1, 7⟩⟩ "native") "load")]⟩ := by cbv
  obtain ⟨f, hf, hiff⟩ := review_fixed_iff hfixed
  refine ⟨disk, rfl, hfixed, f, hf, fun hback => ?_⟩
  have hleft := hiff.mp hback
  rw [hread] at hf
  cases hf
  have hopens := (hleft (call (.ident ⟨⟨1, 1⟩, ⟨1, 12⟩⟩ "load"))
    (List.mem_of_head? (by cbv))).1
  cases hopens

end StarlarkLint
