import StarlarkLint.CommandLine.Lint
import StarlarkLint.Proofs.Settings
import StarlarkLint.Proofs.Text.Encoding

/-!
# Settings that fail

A run without settings is to say why, and to end with the status for wrong use.  It does whatever is
wrong with the place of the file, with its syntax, with the shape of what it holds, or with a value
that a layer gives.  Two things are left, and make the program fail: the reader of the file may fail
otherwise than by telling that the text is malformed, and the dialect may have no text, so that it
could not be said either what is wrong with it.

A reader that can be relied on reads every text or tells that it is malformed.  With such a reader
the first of the two things happens exactly if the bytes of the file are not UTF-8 and the reader
comes upon that before anything else.

## Main definitions

* `Loader.Reliable` — readers that can be relied on.
* `Settings.Garbled` — a file whose reader fails otherwise than by telling that it is malformed.
* `Settings.Untold` — why it is not told that there are no settings.

## Main results

* `Settings.reported_iff_of_readFile` — when it is told what is wrong with a file.
* `Settings.load_told_iff` — there are settings, or it is told that there are none, unless one of
  the two things happens; and what the run then comes to.
-/

namespace StarlarkLint

/-- A reader can be relied on. -/
structure Loader.Reliable (loader : Loader) : Prop where
  /-- A text is read, or it is told that it is malformed. -/
  told_of_isValid {bytes : ByteArray} {failure : LoadFailure} (h : bytes.IsValidUTF8)
    (hfailure : loader bytes = .error failure) : ∃ reason, failure = .malformed reason
  /-- Bytes that are not UTF-8 are not read; they may be malformed before they are no text. -/
  failure_of_not_isValid {bytes : ByteArray} (h : ¬ bytes.IsValidUTF8) :
    loader bytes = .error .notUtf8 ∨ ∃ reason, loader bytes = .error (.malformed reason)

namespace Settings

variable {loader : Loader} {disk : Disk} {search : List Path} {asked : Option Path} {path : Path}
  {bytes : ByteArray} {environment : Environment} {overrides : List (String × Value)}

/-- The bytes of a file can be read, but their reader fails otherwise than by telling that they are
malformed. -/
def Garbled (loader : Loader) (disk : Disk) (path : Path) : Prop :=
  ∃ bytes failure, disk.read path = .ok bytes ∧ loader bytes = .error failure ∧
    ∀ reason, failure ≠ .malformed reason

/-- Why it is not told that there are no settings. -/
inductive Untold (loader : Loader) (disk : Disk) (search : List Path) (asked : Option Path)
    (environment : Environment) (overrides : List (String × Value)) : Prop
  /-- The reader of the file fails. -/
  | garbled {path : Path} (hfile : findFile disk search asked = .ok (some path))
    (hgarbled : Garbled loader disk path)
  /-- All names are known, and the dialect has no text. -/
  | dialect {document : List (Value × Value)} {source : Option Path}
    {warnings disabled exempt : List String}
    (hchosen : Chosen loader disk search asked document source)
    (hnamed : Layers.Named { document, environment, overrides } warnings disabled exempt)
    (hvalue : (Layers.effective { document, environment, overrides } .dialect).spelled? = none)

/-! ### Files -/

/-- Only a file that was asked for can be missing, and that is told. -/
theorem reported_of_findFile {e : SettingsFailure} (h : findFile disk search asked = .error e) :
    e.Reported := by
  unfold findFile at h
  split at h
  · split at h
    · cases h
    · cases h
      exact SettingsFailure.reported_refused _
  · cases h

/-- Of a file whose bytes can be read, it is the reader that decides. -/
theorem garbled_iff_of_read (hread : disk.read path = .ok bytes) :
    Garbled loader disk path ↔
      ∃ failure, loader bytes = .error failure ∧ ∀ reason, failure ≠ .malformed reason := by
  constructor
  · rintro ⟨bytes', failure, hbytes, hfailure⟩
    obtain rfl : bytes = bytes' := Except.ok.inj (hread.symm.trans hbytes)
    exact ⟨failure, hfailure⟩
  · rintro ⟨failure, hfailure⟩
    exact ⟨bytes, failure, hread, hfailure⟩

/-- The mapping in a file whose bytes can be read is what the reader makes of them. -/
theorem readFile_of_read (hread : disk.read path = .ok bytes) :
    readFile loader disk path =
      match loader bytes with
      | .error (.malformed reason) => .error (.refused (.malformed path reason))
      | .error .notUtf8 => .error (.failed (.notUtf8 path))
      | .error .unexpected => .error (.failed (.unexpected path))
      | .ok (.map entries) => .ok entries
      | .ok value => if value.isEmpty then .ok [] else .error (.refused (.notMapping path)) := by
  rw [readFile, hread]
  rfl

/-- **It is told what is wrong with a file**, unless its reader fails. -/
theorem reported_iff_of_readFile {e : SettingsFailure} (he : readFile loader disk path = .error e) :
    e.Reported ↔ ¬ Garbled loader disk path := by
  cases hread : disk.read path with
  | error reason =>
    rw [readFile, hread] at he
    cases he
    refine iff_of_true (SettingsFailure.reported_refused _) ?_
    rintro ⟨bytes, failure, hbytes, -⟩
    cases hread.symm.trans hbytes
  | ok bytes =>
    rw [readFile_of_read hread] at he
    rw [garbled_iff_of_read hread]
    cases hload : loader bytes with
    | error failure =>
      rw [hload] at he
      cases failure with
      | malformed reason =>
        cases he
        refine iff_of_true (SettingsFailure.reported_refused _) ?_
        rintro ⟨failure, ⟨⟩, hne⟩
        exact hne reason rfl
      | notUtf8 =>
        cases he
        exact iff_of_false (SettingsFailure.not_reported_failed _)
          (not_not_intro ⟨.notUtf8, rfl, fun reason => by simp⟩)
      | unexpected =>
        cases he
        exact iff_of_false (SettingsFailure.not_reported_failed _)
          (not_not_intro ⟨.unexpected, rfl, fun reason => by simp⟩)
    | ok value =>
      -- what was read is a mapping, or it is told that it is none
      rw [hload] at he
      refine iff_of_true ?_ (by simp)
      split at he
      · next hmalformed => cases hmalformed
      · next hnotUtf8 => cases hnotUtf8
      · next hunexpected => cases hunexpected
      · cases he
      · split at he
        · cases he
        · cases he
          exact SettingsFailure.reported_refused _

/-- A file that its reader gives no value for holds no mapping. -/
theorem readFile_ne_ok (hread : disk.read path = .ok bytes) {failure : LoadFailure}
    (hfailure : loader bytes = .error failure) (document : List (Value × Value)) :
    readFile loader disk path ≠ .ok document := by
  rw [readFile_of_read hread, hfailure]
  cases failure <;> rintro ⟨⟩

/-- With a reader that can be relied on, only bytes that are not UTF-8 make it fail. -/
theorem garbled_iff_of_reliable (hloader : loader.Reliable) (hread : disk.read path = .ok bytes) :
    Garbled loader disk path ↔ ¬ bytes.IsValidUTF8 ∧ loader bytes = .error .notUtf8 := by
  rw [garbled_iff_of_read hread]
  constructor
  · rintro ⟨failure, hfailure, hne⟩
    have hvalid : ¬ bytes.IsValidUTF8 := by
      intro hvalid
      obtain ⟨reason, hreason⟩ := hloader.told_of_isValid hvalid hfailure
      exact hne reason hreason
    refine ⟨hvalid, (hloader.failure_of_not_isValid hvalid).resolve_right ?_⟩
    rintro ⟨reason, hmalformed⟩
    exact hne reason (Except.error.inj (hfailure.symm.trans hmalformed))
  · rintro ⟨-, hfailure⟩
    exact ⟨.notUtf8, hfailure, fun reason => by simp⟩

/-- With a reader that can be relied on, bytes that are not UTF-8 hold no mapping. -/
theorem readFile_ne_ok_of_reliable (hloader : loader.Reliable) (hread : disk.read path = .ok bytes)
    (hvalid : ¬ bytes.IsValidUTF8) (document : List (Value × Value)) :
    readFile loader disk path ≠ .ok document := by
  rcases hloader.failure_of_not_isValid hvalid with hfailure | ⟨reason, hfailure⟩
  · exact readFile_ne_ok hread hfailure document
  · exact readFile_ne_ok hread hfailure document

/-- Without a file that can be read there are no settings, and it is told why unless the reader of a
file fails. -/
theorem exists_error_of_not_chosen
    (h : ∀ document source, ¬ Chosen loader disk search asked document source) :
    ∃ e, (∀ environment overrides,
        load loader disk search environment asked overrides = .error e) ∧
      (e.Reported ↔ ¬ ∃ path, findFile disk search asked = .ok (some path) ∧
        Garbled loader disk path) := by
  cases hfile : findFile disk search asked with
  | error e =>
    refine ⟨e, fun environment overrides => by rw [load, hfile]; rfl, ?_⟩
    exact iff_of_true (reported_of_findFile hfile) (by simp)
  | ok found =>
    cases found with
    | none => exact absurd (.none hfile) (h [] none)
    | some path =>
      cases hread : readFile loader disk path with
      | ok document => exact absurd (.file hfile hread) (h document (some path))
      | error e =>
        refine ⟨e, fun environment overrides => ?_, ?_⟩
        · rw [load, hfile]
          simp only [bind, Except.bind, hread]
        · simpa using reported_iff_of_readFile hread

/-! ### Settings -/

variable {document document' : List (Value × Value)} {source source' : Option Path}

theorem Chosen.unique (h : Chosen loader disk search asked document source)
    (h' : Chosen loader disk search asked document' source') : document = document' := by
  cases h with
  | none hfile =>
    cases h' with
    | none => rfl
    | file hfile' => cases hfile.symm.trans hfile'
  | file hfile hdocument =>
    cases h' with
    | none hfile' => cases hfile.symm.trans hfile'
    | file hfile' hdocument' =>
      cases hfile.symm.trans hfile'
      exact Except.ok.inj (hdocument.symm.trans hdocument')

/-- The reader of the file that settings are read from does not fail. -/
theorem Chosen.not_garbled (h : Chosen loader disk search asked document source)
    (hfound : findFile disk search asked = .ok (some path)) : ¬ Garbled loader disk path := by
  cases h with
  | none hfile => cases hfile.symm.trans hfound
  | file hfile hdocument =>
    cases hfile.symm.trans hfound
    rintro ⟨bytes, failure, hread, hfailure, -⟩
    exact readFile_ne_ok hread hfailure _ hdocument

/-- Where the file can be read, only the dialect stands in the way of telling. -/
theorem Chosen.untold_iff (h : Chosen loader disk search asked document source) :
    Untold loader disk search asked environment overrides ↔
      (∃ warnings disabled exempt,
        Layers.Named { document, environment, overrides } warnings disabled exempt) ∧
      (Layers.effective { document, environment, overrides } .dialect).spelled? = .none := by
  constructor
  · rintro (⟨hfile, hgarbled⟩ | ⟨hchosen, hnamed, hvalue⟩)
    · exact absurd hgarbled (h.not_garbled hfile)
    · obtain rfl := h.unique hchosen
      exact ⟨⟨_, _, _, hnamed⟩, hvalue⟩
  · rintro ⟨⟨warnings, disabled, exempt, hnamed⟩, hvalue⟩
    exact .dialect h hnamed hvalue

/-- Where there are no settings, it is told why, unless the reader of the file fails, or only the
dialect is amiss, and has no text. -/
theorem reported_iff_not_untold {e : SettingsFailure}
    (he : load loader disk search environment asked overrides = .error e) :
    e.Reported ↔ ¬ Untold loader disk search asked environment overrides := by
  by_cases hchosen : ∃ document source, Chosen loader disk search asked document source
  · obtain ⟨document, source, hchosen⟩ := hchosen
    rw [reported_iff_of_load hchosen he, hchosen.untold_iff]
  · simp only [not_exists] at hchosen
    obtain ⟨e', hload, htold⟩ := exists_error_of_not_chosen hchosen
    obtain rfl : e = e' := Except.error.inj (he.symm.trans (hload environment overrides))
    rw [htold, not_iff_not]
    constructor
    · rintro ⟨path, hfile, hgarbled⟩
      exact .garbled hfile hgarbled
    · rintro (⟨hfile, hgarbled⟩ | ⟨hfound, -, -⟩)
      · exact ⟨_, hfile, hgarbled⟩
      · exact absurd hfound (hchosen _ _)

/-- Settings were read from a file whose reader does not fail, and their dialect has a text or was
given as such. -/
theorem not_untold_of_load {s : Settings}
    (hs : load loader disk search environment asked overrides = .ok s) :
    ¬ Untold loader disk search asked environment overrides := by
  by_cases hchosen : ∃ document source, Chosen loader disk search asked document source
  · obtain ⟨document, source, hchosen⟩ := hchosen
    rw [hchosen.untold_iff]
    rintro ⟨-, hnone⟩
    obtain ⟨_, _, _, _, -, hasks, -⟩ := (load_eq_ok_iff hchosen).mp hs
    exact hasks.spelled?_ne_none hnone
  · simp only [not_exists] at hchosen
    obtain ⟨e, hload, -⟩ := exists_error_of_not_chosen hchosen
    cases hs.symm.trans (hload environment overrides)

end Settings

/-! ### Runs -/

namespace Lint

/-- A run loads the settings that its command line asks for. -/
theorem settings_eq_load {options : Options} {asked : Option Path}
    (h : options.config = asked.map some) (loader : Loader) (disk : Disk) (search : List Path)
    (environment : Environment) : settings loader disk search environment options =
      Settings.load loader disk search environment asked options.overrides := by
  rw [settings, h]
  cases asked <;> rfl

end Lint

/-- **There are settings, or it is told that there are none**, unless the reader of the file fails,
or the dialect has no text.  Where it is told, a run complains about the reason, does nothing else,
and ends with the status of wrong use; otherwise the program fails.  A reader that can be relied on
fails only if the bytes of the file are not UTF-8, and then there are no settings. -/
theorem Settings.load_told_iff (loader : Loader) (disk : Disk) (search : List Path)
    (asked : Option Path) (environment : Environment) (overrides : List (String × Value)) :
    (((∃ s, load loader disk search environment asked overrides = .ok s) ∨
        ∃ reason, load loader disk search environment asked overrides =
          .error (.refused reason)) ↔
      ¬ Untold loader disk search asked environment overrides) ∧
    (∀ options : Lint.Options, options.config = asked.map some → options.overrides = overrides →
      (∀ reason, load loader disk search environment asked overrides = .error (.refused reason) →
        (Lint.run loader disk search environment options).outcome options =
          .ok
            { status := 2
              log := options.shown (Lint.settingsLog loader disk search options)
              complaints := "Error: " ++ reason.message ++ "\n" }) ∧
      ∀ fault, load loader disk search environment asked overrides = .error (.failed fault) →
        (Lint.run loader disk search environment options).outcome options = .error fault) ∧
    (loader.Reliable → ∀ path bytes, disk.read path = .ok bytes →
      (Garbled loader disk path ↔ ¬ bytes.IsValidUTF8 ∧ loader bytes = .error .notUtf8) ∧
      (¬ bytes.IsValidUTF8 → ∀ document, readFile loader disk path ≠ .ok document)) := by
  refine ⟨?_, ?_, fun hloader path bytes hread => ⟨garbled_iff_of_reliable hloader hread,
    readFile_ne_ok_of_reliable hloader hread⟩⟩
  · cases hload : load loader disk search environment asked overrides with
    | ok s => exact iff_of_true (.inl ⟨s, rfl⟩) (not_untold_of_load hload)
    | error e =>
      rw [← reported_iff_not_untold hload]
      simp [SettingsFailure.Reported]
  · rintro options hconfig rfl
    refine ⟨fun reason hload => ?_, fun fault hload => ?_⟩ <;>
      rw [Lint.run, Lint.settings_eq_load hconfig, hload] <;> rfl

/-- A disk with something in the place of the file that settings are read from. -/
def Settings.placed (entry : Disk.Entry) : Disk := { entries := [([fileName], entry)] }

/-- A reader that tells whatever fails with a text. -/
def Loader.telling : Loader := fun bytes =>
  match Yaml.loader bytes with
  | .error .unexpected => .error (.malformed "there is no such value")
  | result => result

theorem Loader.reliable_telling : telling.Reliable where
  told_of_isValid {bytes failure} h hfailure := by
    have htext : Text.decodeUtf8? bytes ≠ none := fun hnone =>
      Text.decodeUtf8?_eq_none_iff.mp hnone h
    obtain ⟨text, htext⟩ := Option.ne_none_iff_exists'.mp htext
    simp only [telling, Yaml.loader, htext] at hfailure
    cases hload : Yaml.load text with
    | ok value => simp [hload] at hfailure
    | error problem =>
      rw [hload] at hfailure
      cases problem <;> exact ⟨_, (Except.error.inj hfailure).symm⟩
  failure_of_not_isValid {bytes} h := by
    left
    simp only [telling, Yaml.loader, Text.decodeUtf8?_eq_none_iff.mpr h]

/-- It is told that a directory is no file, but not that a byte is no text, even if the reader can
be relied on, and not that an integer with too many digits is no dialect. -/
theorem Settings.load_told_iff_placed :
    (load Loader.telling (placed (.file ⟨#[0xff]⟩)) [⟨.here, [fileName]⟩] {} none [] =
        .error (.failed (.notUtf8 ⟨.here, [fileName]⟩)) ∧
      (Lint.run Loader.telling (placed (.file ⟨#[0xff]⟩)) [⟨.here, [fileName]⟩] {}
        { paths := [] }).outcome { paths := [] } =
          .error (.notUtf8 ⟨.here, [fileName]⟩) ∧
      Untold Loader.telling (placed (.file ⟨#[0xff]⟩)) [⟨.here, [fileName]⟩] none {} []) ∧
    (Lint.run Loader.telling (placed .directory) [⟨.here, [fileName]⟩] {}
      { paths := [] }).outcome { paths := [] } =
        .ok
          { status := 2
            complaints := "Error: Failed to load config from .buildlint.yaml: " ++
              "[Errno 21] Is a directory: '.buildlint.yaml'\n" } ∧
    ∃ n, ¬ ((∃ s, load Yaml.loader askingDisk [⟨.here, [fileName]⟩] {} none
        [("file_type", .int n)] = .ok s) ∨
      ∃ reason, load Yaml.loader askingDisk [⟨.here, [fileName]⟩] {} none
        [("file_type", .int n)] = .error (.refused reason)) := by
  refine ⟨?_, ?_, ?_⟩
  · obtain ⟨htold, hrun, hreliable⟩ := load_told_iff Loader.telling
      (placed (.file ⟨#[0xff]⟩)) [⟨.here, [fileName]⟩] none {} []
    have hvalid : ¬ (⟨#[0xff]⟩ : ByteArray).IsValidUTF8 :=
      Text.decodeUtf8?_eq_none_iff.mp (by cbv)
    have hloader : Loader.telling ⟨#[0xff]⟩ = .error .notUtf8 := by cbv
    have hgarbled : Garbled Loader.telling (placed (.file ⟨#[0xff]⟩)) ⟨.here, [fileName]⟩ :=
      (hreliable Loader.reliable_telling _ _ rfl).1.mpr ⟨hvalid, hloader⟩
    have hload : load Loader.telling (placed (.file ⟨#[0xff]⟩)) [⟨.here, [fileName]⟩] {} none [] =
        .error (.failed (.notUtf8 ⟨.here, [fileName]⟩)) := by cbv
    exact ⟨hload, (hrun { paths := [] } rfl rfl).2 _ hload, .garbled rfl hgarbled⟩
  · obtain ⟨-, hrun, -⟩ := load_told_iff Loader.telling (placed .directory) [⟨.here, [fileName]⟩]
      none {} []
    have hload : load Loader.telling (placed .directory) [⟨.here, [fileName]⟩] {} none [] =
        .error (.refused
          (.unreadable ⟨.here, [fileName]⟩ (.isDirectory ⟨.here, [fileName]⟩))) := by rfl
    have hmessage : (SettingsError.unreadable ⟨.here, [fileName]⟩
        (.isDirectory ⟨.here, [fileName]⟩)).message =
          "Failed to load config from .buildlint.yaml: " ++
            "[Errno 21] Is a directory: '.buildlint.yaml'" := by decide
    have hlog : Lint.settingsLog Loader.telling (placed .directory) [⟨.here, [fileName]⟩]
        { paths := [] } = [] := by rfl
    rw [(hrun { paths := [] } rfl rfl).1 _ hload, hmessage, hlog]
    rfl
  · have hint : ∀ m : Nat, ∃ n : Int, m ≤ n.natAbs := fun m => ⟨m, (Int.natAbs_natCast m).ge⟩
    obtain ⟨n, hn⟩ := hint (10 ^ Value.digitLimit)
    refine ⟨n, ?_⟩
    rw [(load_told_iff Yaml.loader askingDisk [⟨.here, [fileName]⟩] none {} _).1, not_not]
    exact .dialect chosen_asking (named_asking (some (.int n))) (Value.spelled?_int_eq_none hn)

end StarlarkLint
