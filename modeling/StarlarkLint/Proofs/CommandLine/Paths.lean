import StarlarkLint.Proofs.CommandLine.Arguments
import StarlarkLint.Proofs.CommandLine.InPlace
import StarlarkLint.Proofs.Discovery

/-!
# Runs over several paths

A run that fixes nothing leaves the disk as it is, so that every file is reviewed as if it were the
only one.  The status of a run over several files is then the greatest of theirs, a path that does
not exist counting like a file that cannot be read; and what is printed, logged and complained
about, where every file exists, is that of one file behind that of another.

The same holds of the paths on a command line, whatever files they stand for.  But the log is
written while files are reviewed, and the complaints about those that could not be used come behind
it, so that on the channel for errors the log of all files stands in front of all complaints; and
what a verbose run logs about its settings it logs once.

## Main definitions

* `Lint.call` — what a command line comes to.
* `Lint.report`, `Lint.statusOf` — what a run over files comes to, nothing being fixed.

## Main results

* `Lint.shown_reviewLog` — what is written of what a review logs.
* `Lint.outcome_reviewAll` — a run over files that exist.
* `Lint.statusOf_append` — the status of a run over more files.
* `Lint.call_paths` — a command line with several paths, and those with one path each.
-/

namespace StarlarkLint.Lint

/-- What a command line comes to on a disk, if it leads to a run, and unless the program fails. -/
def call (loader : Loader) (disk : Disk) (search : List Path) (environment : Environment)
    (words : List String) : Except Ending (Except SettingsFault Outcome) :=
  (Options.parse words).map fun options =>
    (run loader disk search environment options).outcome options

variable {disk : Disk} {settings : Settings} {options : Options} {files more : List Path}
  {start : List LogEntry}

/-! ### Logs -/

theorem shown_append (log more : List LogEntry) :
    options.shown (log ++ more) = options.shown log ++ options.shown more :=
  List.filter_append log more

/-- Unless the run is verbose, no detail is written. -/
theorem shown_eq_nil (h : options.verbose = false) {log : List LogEntry}
    (hdebug : ∀ entry ∈ log, entry.level = .debug) : options.shown log = [] := by
  rw [Options.shown, List.filter_eq_nil_iff]
  intro entry hentry
  simp [LogEntry.isWritten, h, hdebug entry hentry]

/-- What is logged about settings is a detail. -/
theorem level_eq_debug_of_mem_log {loader : Loader} {search : List Path} {asked : Option Path}
    {entry : LogEntry} (h : entry ∈ Settings.log loader disk search asked) :
    entry.level = .debug := by
  unfold Settings.log at h
  split at h
  · split at h
    · rw [List.mem_singleton.mp h]
    · cases h
  · cases h

/-- Unless the run is verbose, nothing is written of what is logged about settings. -/
theorem shown_settingsLog (h : options.verbose = false) (loader : Loader) (disk : Disk)
    (search : List Path) : options.shown (settingsLog loader disk search options) = [] :=
  shown_eq_nil h fun _ => level_eq_debug_of_mem_log

/-- What a check logs is a detail: how much it found and, asked to fix, what it changes. -/
theorem level_eq_debug_of_mem_checkLog {exempt : List String} {fix : Bool} {f : SourceFile}
    {check : Check} {entry : LogEntry} (h : entry ∈ check.log exempt fix f) :
    entry.level = .debug := by
  rw [Check.log, List.mem_append, List.mem_singleton] at h
  rcases h with hchange | rfl
  · split at hchange
    · rw [Native.changes] at hchange
      split at hchange
      · obtain ⟨visit, -, hentry⟩ := List.mem_filterMap.mp hchange
        obtain ⟨name, -, rfl⟩ := Option.map_eq_some_iff.mp hentry
        rfl
      · cases hchange
    · cases hchange
  · rfl

theorem level_eq_debug_of_mem_logAll {exempt : List String} {fix : Bool} {f : SourceFile}
    {checks : List Check} {entry : LogEntry} (h : entry ∈ Check.logAll exempt fix f checks) :
    entry.level = .debug := by
  induction checks generalizing f with
  | nil => cases h
  | cons check checks ih =>
    rw [Check.logAll, List.mem_append] at h
    rcases h with hfirst | hrest
    · exact level_eq_debug_of_mem_checkLog hfirst
    · exact ih hrest

/-- That a file is skipped, and why. -/
def skipped (file : Path) (e : ReadError) : LogEntry :=
  ⟨.warning, "Skipping " ++ file.text ++ ": " ++ e.message⟩

/-- Unless the run is verbose, all that is written of what a review logs is that the file is
skipped, if it cannot be used. -/
theorem shown_reviewLog (h : options.verbose = false) (settings : Settings) (file : Path) :
    options.shown (disk.reviewLog settings false file) =
      ((disk.review settings false file).error.map (skipped file)).toList := by
  rw [Disk.reviewLog, Disk.review]
  cases SourceFile.read disk file (some (settings.dialect.getD (.ofPath file))) with
  | error e => simp [Options.shown, LogEntry.isWritten, skipped]
  | ok f =>
    refine shown_eq_nil h ?_
    rw [List.forall_mem_cons]
    exact ⟨rfl, fun _ => level_eq_debug_of_mem_logAll⟩

/-! ### Runs that fix nothing -/

/-- The reviews of files, each on the same disk. -/
def reviews (disk : Disk) (settings : Settings) (files : List Path) : List Review :=
  files.map (disk.review settings false)

/-- What the reviews of files log. -/
def reviewsLog (disk : Disk) (settings : Settings) (files : List Path) : List LogEntry :=
  files.flatMap (disk.reviewLog settings false)

theorem reviews_append :
    reviews disk settings (files ++ more) =
      reviews disk settings files ++ reviews disk settings more := List.map_append

/-- A step of a run that fixes nothing: a review is added to the others, or the run ends. -/
theorem reviewAll_cons (hfix : options.fix = false) (before : List Review) (log : List LogEntry)
    (file : Path) (files : List Path) :
    reviewAll options settings disk { reviews := before, log } (file :: files) =
      if disk.exists? file then
        reviewAll options settings disk
          { reviews := before ++ [disk.review settings false file]
            log := log ++ disk.reviewLog settings false file } files
      else .missing file { reviews := before, log } := by
  have hadd : Progress.add options (disk.review settings false file)
      (disk.reviewLog settings false file) { reviews := before, log } =
        { reviews := before ++ [disk.review settings false file]
          log := log ++ disk.reviewLog settings false file } := by
    rw [Progress.add, Disk.fixed_review_false]
  have hsame : disk.afterWriting [] = disk := rfl
  simp only [reviewAll, hsame, hfix, hadd]

/-- Files that exist are reviewed, all of them. -/
theorem reviewAll_finished (hfix : options.fix = false)
    (hexist : ∀ file ∈ files, disk.exists? file = true) (before : List Review)
    (log : List LogEntry) :
    reviewAll options settings disk { reviews := before, log } files =
      .finished
        { reviews := before ++ reviews disk settings files
          log := log ++ reviewsLog disk settings files } := by
  induction files generalizing before log with
  | nil => simp [reviewAll, reviews, reviewsLog]
  | cons file files ih =>
    rw [List.forall_mem_cons] at hexist
    rw [reviewAll_cons hfix, if_pos hexist.1, ih hexist.2]
    simp [reviews, reviewsLog]

/-- A file that does not exist ends the run, after whatever reviews. -/
theorem reviewAll_missing (hfix : options.fix = false)
    (hmissing : ¬ ∀ file ∈ files, disk.exists? file = true) (before : List Review)
    (log : List LogEntry) :
    ∃ file done, reviewAll options settings disk { reviews := before, log } files =
      .missing file done := by
  induction files generalizing before log with
  | nil => exact absurd (by simp) hmissing
  | cons file files ih =>
    rw [reviewAll_cons hfix]
    by_cases hfile : disk.exists? file = true
    · rw [if_pos hfile]
      exact ih (fun hexist => hmissing (List.forall_mem_cons.2 ⟨hfile, hexist⟩)) _ _
    · rw [if_neg hfile]
      exact ⟨_, _, rfl⟩

/-- What there is to say about files, if nothing is fixed, behind what was logged at the start. -/
def report (options : Options) (disk : Disk) (settings : Settings) (start : List LogEntry)
    (files : List Path) : Outcome where
  status := status (reviews disk settings files)
  output := Report.findings (reviews disk settings files)
  log := options.shown start ++ options.shown (reviewsLog disk settings files)
  complaints := Report.complaints (reviews disk settings files)

/-- **A run over files that exist** comes to what there is to say about them. -/
theorem outcome_reviewAll (hfix : options.fix = false) (hjson : options.json = false)
    (hexist : ∀ file ∈ files, disk.exists? file = true) :
    (reviewAll options settings disk { log := start } files).outcome options =
      .ok (report options disk settings start files) := by
  rw [reviewAll_finished hfix hexist [] start]
  simp [Run.outcome, Run.written, report, hjson, shown_append]

/-! ### Statuses -/

/-- The status of reviews put together is the greater of the statuses. -/
theorem status_append (first second : List Review) :
    status (first ++ second) = max (status first) (status second) := by
  simp only [status, List.any_append, Bool.or_eq_true]
  generalize (first.any fun r => r.error.isSome) = e₁
  generalize (second.any fun r => r.error.isSome) = e₂
  generalize (first.any fun r => decide (r.findings ≠ [])) = f₁
  generalize (second.any fun r => decide (r.findings ≠ [])) = f₂
  revert e₁ e₂ f₁ f₂
  decide

/-- The status of a run over files, if nothing is fixed. -/
def statusOf (disk : Disk) (settings : Settings) (files : List Path) : Nat :=
  if ∀ file ∈ files, disk.exists? file = true then status (reviews disk settings files) else 2

/-- A run over files comes to something, with their status. -/
theorem exists_outcome_reviewAll (hfix : options.fix = false) (hjson : options.json = false)
    (start : List LogEntry) (files : List Path) :
    ∃ outcome, (reviewAll options settings disk { log := start } files).outcome options =
        .ok outcome ∧
      outcome.status = statusOf disk settings files := by
  unfold statusOf
  split
  · next hexist => exact ⟨_, outcome_reviewAll hfix hjson hexist, rfl⟩
  · next hmissing =>
    obtain ⟨file, done, hrun⟩ := reviewAll_missing hfix hmissing [] start
    rw [hrun]
    exact ⟨_, rfl, rfl⟩

theorem statusOf_le (files : List Path) : statusOf disk settings files ≤ 2 := by
  unfold statusOf status
  split_ifs <;> omega

/-- **The status of a run over more files** is the greater of the statuses. -/
theorem statusOf_append (files more : List Path) :
    statusOf disk settings (files ++ more) =
      max (statusOf disk settings files) (statusOf disk settings more) := by
  by_cases hfiles : ∀ file ∈ files, disk.exists? file = true
  · by_cases hmore : ∀ file ∈ more, disk.exists? file = true
    · have hall : ∀ file ∈ files ++ more, disk.exists? file = true :=
        List.forall_mem_append.2 ⟨hfiles, hmore⟩
      rw [statusOf, if_pos hall, statusOf, if_pos hfiles, statusOf, if_pos hmore, reviews_append,
        status_append]
    · have hall : ¬ ∀ file ∈ files ++ more, disk.exists? file = true := fun h =>
        hmore (List.forall_mem_append.1 h).2
      have htwo : statusOf disk settings more = 2 := if_neg hmore
      rw [statusOf, if_neg hall, htwo, max_eq_right (statusOf_le files)]
  · have hall : ¬ ∀ file ∈ files ++ more, disk.exists? file = true := fun h =>
      hfiles (List.forall_mem_append.1 h).1
    have htwo : statusOf disk settings files = 2 := if_neg hfiles
    rw [statusOf, if_neg hall, htwo, max_eq_left (statusOf_le more)]

/-- The status of a run over the files of several paths is the greatest of those over the files of
each. -/
theorem max?_statusOf {paths : List String} (h : paths ≠ []) (filesOf : String → List Path) :
    (paths.map fun path => statusOf disk settings (filesOf path)).max? =
      some (statusOf disk settings (paths.flatMap filesOf)) := by
  obtain ⟨path, paths, rfl⟩ := List.exists_cons_of_ne_nil h
  rw [List.map_cons, List.max?_cons', List.flatMap_cons]
  generalize filesOf path = files
  induction paths generalizing files with
  | nil => simp
  | cons path paths ih =>
    rw [List.map_cons, List.foldl_cons, ← statusOf_append, ih (List.cons_ne_nil _ _),
      List.flatMap_cons, List.append_assoc]

/-! ### Reports -/

theorem output_report_append (files more : List Path) :
    (report options disk settings start (files ++ more)).output =
      (report options disk settings start files).output ++
        (report options disk settings start more).output := by
  simp [report, reviews_append, Report.findings, Report.lines, String.join_append]

theorem complaints_report_append (files more : List Path) :
    (report options disk settings start (files ++ more)).complaints =
      (report options disk settings start files).complaints ++
        (report options disk settings start more).complaints := by
  simp [report, reviews_append, Report.complaints, Report.lines, String.join_append]

/-- What reviews log of the files of several paths is what they log of those of each path, one
behind another. -/
theorem shown_reviewsLog_flatMap (options : Options) (paths : List String)
    (filesOf : String → List Path) :
    options.shown (reviewsLog disk settings (paths.flatMap filesOf)) =
      paths.flatMap fun path => options.shown (reviewsLog disk settings (filesOf path)) := by
  rw [reviewsLog, List.flatMap_assoc, Options.shown, List.filter_flatMap]
  rfl

/-- Unless the run is verbose, all that is written of what reviews log is which files are
skipped. -/
theorem shown_reviewsLog (h : options.verbose = false) (files : List Path) :
    options.shown (reviewsLog disk settings files) = files.filterMap fun file =>
      (disk.review settings false file).error.map (skipped file) := by
  rw [reviewsLog, Options.shown, List.filter_flatMap, List.filterMap_eq_flatMap_toList]
  exact List.flatMap_congr fun file _ => shown_reviewLog h settings file

/-- A text that is put together as the files are is, for the files of several paths, the texts for
those of each path, one behind another. -/
theorem join_report (text : Outcome → String)
    (hnil : text (report options disk settings start []) = "")
    (happend : ∀ files more, text (report options disk settings start (files ++ more)) =
      text (report options disk settings start files) ++
        text (report options disk settings start more))
    (paths : List String) (filesOf : String → List Path) :
    String.join (paths.map fun path =>
        text (report options disk settings start (filesOf path))) =
      text (report options disk settings start (paths.flatMap filesOf)) := by
  induction paths with
  | nil => exact hnil.symm
  | cons path paths ih =>
    rw [List.map_cons, String.join_cons, ih, List.flatMap_cons, happend]

/-- Of files that cannot be used it is logged that they are skipped, and complained. -/
theorem report_of_error {error : Path → ReadError} (hsome : files ≠ [])
    (h : ∀ file ∈ files, SourceFile.read disk file (some (settings.dialect.getD (.ofPath file))) =
      .error (error file)) :
    report options disk settings start files =
      { status := 2
        log := options.shown start ++ files.map fun file => skipped file (error file)
        complaints := String.join (files.map fun file =>
          file.text ++ ": parse-error: " ++ (error file).message ++ "\n") } := by
  have hreviews : reviews disk settings files =
      files.map fun file => { path := file, error := some (error file) } :=
    List.map_congr_left fun file hfile => by rw [Disk.review, h file hfile]
  have hlog : reviewsLog disk settings files = files.map fun file => skipped file (error file) := by
    rw [reviewsLog, ← List.flatMap_singleton' (files.map _), List.flatMap_map]
    exact List.flatMap_congr fun file hfile => by rw [Disk.reviewLog, h file hfile, skipped]
  have hfindings : (reviews disk settings files).flatMap (·.findings) = [] := by
    rw [hreviews, List.flatMap_map, List.flatMap_eq_nil_iff]
    exact fun file _ => rfl
  obtain ⟨file, files, rfl⟩ := List.exists_cons_of_ne_nil hsome
  rw [report, Report.findings, hfindings, hreviews, hlog]
  simp [status, Report.complaints, Report.lines, Options.shown, LogEntry.isWritten, skipped,
    Function.comp_def, List.filter_map]

/-! ### Command lines -/

/-- The files that a path on a command line stands for. -/
def filesOf (disk : Disk) (options : Options) (path : String) : List Path :=
  disk.filesAt options.deep (.parse path)

/-- The same run over other paths. -/
def Options.over (options : Options) (paths : List String) : Options :=
  { options with paths := paths.map .parse }

variable {loader : Loader} {search : List Path} {environment : Environment} {paths : List String}

/-- A run over paths reviews their files in turn; the settings do not depend on the paths. -/
theorem run_over (hsettings : Lint.settings loader disk search environment options = .ok settings)
    (paths : List String) :
    run loader disk search environment (options.over paths) =
      reviewAll (options.over paths) settings disk
        { log := settingsLog loader disk search options }
        (paths.flatMap (filesOf disk options)) := by
  have hload : Lint.settings loader disk search environment (options.over paths) =
      .ok settings := hsettings
  rw [run, hload, Options.over, Disk.discover, List.flatMap_map]
  rfl

/-- A run over paths comes to something, with the status of their files. -/
theorem exists_outcome_run_over (hfix : options.fix = false) (hjson : options.json = false)
    (hsettings : Lint.settings loader disk search environment options = .ok settings)
    (paths : List String) :
    ∃ outcome, (run loader disk search environment (options.over paths)).outcome
        (options.over paths) = .ok outcome ∧
      outcome.status = statusOf disk settings (paths.flatMap (filesOf disk options)) := by
  have hfixOver : (options.over paths).fix = false := hfix
  have hjsonOver : (options.over paths).json = false := hjson
  rw [run_over hsettings]
  exact exists_outcome_reviewAll hfixOver hjsonOver _ _

/-- A run over paths that exist comes to what there is to say about their files. -/
theorem outcome_run_over (hfix : options.fix = false) (hjson : options.json = false)
    (hsettings : Lint.settings loader disk search environment options = .ok settings)
    (hsound : disk.Sound) (hexist : ∀ path ∈ paths, disk.exists? (.parse path) = true) :
    (run loader disk search environment (options.over paths)).outcome (options.over paths) =
      .ok (report options disk settings (settingsLog loader disk search options)
        (paths.flatMap (filesOf disk options))) := by
  rw [run_over hsettings]
  refine outcome_reviewAll hfix hjson fun file hfile => ?_
  obtain ⟨path, hpath, hfile⟩ := List.mem_flatMap.1 hfile
  exact hsound.exists?_of_mem_filesAt (hexist path hpath) hfile

/-- A command line with paths between switches leads to a run over the paths. -/
theorem call_eq {before after : List String} {first last : List (String × Option String)}
    (hbefore : usage.Switches before first) (hafter : usage.Switches after last)
    (hsome : paths ≠ []) (hdash : ∀ path ∈ paths, path.toList.head? ≠ some '-')
    (hoptions : options = .ofArguments { given := last ++ first }) :
    call loader disk search environment (before ++ (paths ++ after)) =
      .ok ((run loader disk search environment (options.over paths)).outcome
        (options.over paths)) := by
  have hparse : Options.parse (before ++ (paths ++ after)) = .ok (options.over paths) := by
    rw [Options.parse, Usage.parse_operands rfl hbefore hafter hsome hdash, hoptions]
    rfl
  rw [call, hparse, Except.map]

/-- **A run over several paths is the runs over each path put together.**  With the same switches
around the paths, none of which ends the command line or asks for fixes or for JSON, the status of
the run is the greatest of those of the runs over each path alone.  If all the paths exist, what is
printed is what those runs print, one behind another, and likewise what is complained about.  Behind
what a verbose run logs about its settings, which every run does once, what is logged is what those
runs log, one behind another; a run that is not verbose logs which files are skipped, and nothing
else.  On the channel for errors the log stands in front of all complaints. -/
theorem call_paths {before after : List String} {first last : List (String × Option String)}
    (hbefore : usage.Switches before first) (hafter : usage.Switches after last)
    (hsome : paths ≠ []) (hdash : ∀ path ∈ paths, path.toList.head? ≠ some '-')
    (hoptions : options = .ofArguments { given := last ++ first })
    (hfix : options.fix = false) (hjson : options.json = false)
    (hsettings : Lint.settings loader disk search environment options = .ok settings) :
    ∃ (alone : String → Outcome) (together : Outcome),
      (∀ path ∈ paths, call loader disk search environment (before ++ ([path] ++ after)) =
        .ok (.ok (alone path))) ∧
      call loader disk search environment (before ++ (paths ++ after)) = .ok (.ok together) ∧
      (paths.map fun path => (alone path).status).max? = some together.status ∧
      (disk.Sound → (∀ path ∈ paths, disk.exists? (.parse path) = true) →
        together.output = String.join (paths.map fun path => (alone path).output) ∧
        together.complaints = String.join (paths.map fun path => (alone path).complaints) ∧
        let start := options.shown (settingsLog loader disk search options)
        ∃ rest : String → List LogEntry, (∀ path ∈ paths, (alone path).log = start ++ rest path) ∧
          together.log = start ++ paths.flatMap rest ∧
          (options.verbose = false → start = [] ∧ ∀ path, rest path =
            (disk.filesAt options.deep (.parse path)).filterMap fun file =>
              (disk.review settings false file).error.map fun e =>
                ⟨.warning, "Skipping " ++ file.text ++ ": " ++ e.message⟩) ∧
          ∀ clock, together.errors clock = Log.text clock together.log ++
            String.join (paths.map fun path => (alone path).complaints)) := by
  choose outcome houtcome hstatus using exists_outcome_run_over hfix hjson hsettings
  refine ⟨fun path => outcome [path], outcome paths, fun path hpath => ?_, ?_, ?_,
    fun hsound hexist => ?_⟩
  · have hpathDash : ∀ other ∈ [path], other.toList.head? ≠ some '-' := by
      simpa using hdash path hpath
    rw [call_eq hbefore hafter (List.cons_ne_nil _ _) hpathDash hoptions, houtcome]
  · rw [call_eq hbefore hafter hsome hdash hoptions, houtcome]
  · simp only [hstatus, List.flatMap_singleton]
    exact max?_statusOf hsome _
  · have halone : ∀ path ∈ paths, outcome [path] =
        report options disk settings (settingsLog loader disk search options)
          (filesOf disk options path) := by
      intro path hpath
      have hpathExists : ∀ other ∈ [path], disk.exists? (.parse other) = true := by
        simpa using hexist path hpath
      simpa using (houtcome [path]).symm.trans
        (outcome_run_over hfix hjson hsettings hsound hpathExists)
    have hall (text : Outcome → String) : (paths.map fun path => text (outcome [path])) =
        paths.map fun path => text (report options disk settings
          (settingsLog loader disk search options) (filesOf disk options path)) :=
      List.map_congr_left fun path hpath => by rw [halone path hpath]
    have htogether : outcome paths =
        report options disk settings (settingsLog loader disk search options)
          (paths.flatMap (filesOf disk options)) :=
      Except.ok.inj ((houtcome paths).symm.trans
        (outcome_run_over hfix hjson hsettings hsound hexist))
    have hcomplaints : (outcome paths).complaints =
        String.join (paths.map fun path => (outcome [path]).complaints) := by
      rw [hall Outcome.complaints, htogether]
      exact (join_report Outcome.complaints rfl complaints_report_append paths _).symm
    refine ⟨?_, hcomplaints,
      fun path => options.shown (reviewsLog disk settings (filesOf disk options path)),
      fun path hpath => ?_, ?_, fun hverbose => ⟨?_, fun path => ?_⟩, fun clock => ?_⟩
    · rw [hall Outcome.output, htogether]
      exact (join_report Outcome.output rfl output_report_append paths _).symm
    · dsimp only
      rw [halone path hpath, report]
    · rw [htogether, report, shown_reviewsLog_flatMap]
    · exact shown_settingsLog hverbose loader disk search
    · exact shown_reviewsLog hverbose _
    · rw [Outcome.errors, hcomplaints]

/-! ### A run over three packages -/

/-- A package whose description uses the native module, between two whose descriptions cannot be
parsed. -/
def packages : Disk :=
  (((Disk.empty []).addFile ["lib", "BUILD"] (Text.encode "\"\n")).addFile ["pkg", "BUILD"]
    (Text.encode "native.x\n")).addFile ["old", "BUILD"] (Text.encode ")\n")

theorem sound_packages : packages.Sound := by
  have hfirst : ((Disk.empty []).addFile ["lib", "BUILD"] (Text.encode "\"\n")).Sound :=
    (Disk.sound_empty []).addFile (by decide) (by simp [Disk.at?, Disk.empty]) _
  have hsecond : (((Disk.empty []).addFile ["lib", "BUILD"] (Text.encode "\"\n")).addFile
      ["pkg", "BUILD"] (Text.encode "native.x\n")).Sound :=
    hfirst.addFile (by decide) (by cbv; simp) _
  exact hsecond.addFile (by decide) (by cbv; simp) _

/-- The words in front of the paths. -/
def packagesWords : List String := ["-r", "--warnings", "native-build"]

/-- What they ask for. -/
def packagesOptions : Options :=
  .ofArguments { given := [("--warnings", some "native-build"), ("--recursive", none)] }

theorem switches_packages : usage.Switches packagesWords
    [("--warnings", some "native-build"), ("--recursive", none)] := ⟨by decide, _, by cbv, by cbv⟩

theorem settings_packages : Lint.settings Yaml.loader packages [] {} packagesOptions =
    .ok ⟨[.nativeBuild], PositionalArgs.exempt, none, none⟩ := by cbv

theorem forall_packages_exist : ∀ path ∈ ["lib", "pkg", "old"],
    packages.exists? (.parse path) = true := by
  rw [List.forall_mem_cons, List.forall_mem_cons, List.forall_mem_singleton]
  exact ⟨by cbv, by cbv, by cbv⟩

/-- What is wrong with a description: a literal is not closed, or a parenthesis not opened. -/
def packagesError (file : Path) : ReadError :=
  if file = ⟨.here, ["lib", "BUILD"]⟩ then .syntactic (.lexical ⟨.unterminatedString, ⟨1, 1⟩⟩)
  else .syntactic (.grammatical
    { problem := .unexpectedToken ")", token := some ⟨.rparen, ")", ⟨⟨1, 1⟩, ⟨1, 2⟩⟩⟩ })

theorem forall_packages_error : ∀ path ∈ ["lib", "old"],
    filesOf packages packagesOptions path = [⟨.here, [path, "BUILD"]⟩] ∧
      SourceFile.read packages ⟨.here, [path, "BUILD"]⟩
        (some (.ofPath ⟨.here, [path, "BUILD"]⟩)) =
          .error (packagesError ⟨.here, [path, "BUILD"]⟩) := by
  rw [List.forall_mem_cons, List.forall_mem_singleton]
  exact ⟨⟨by cbv, by cbv⟩, by cbv, by cbv⟩

/-- A run over packages whose descriptions cannot be parsed says that they are skipped, and
complains about them. -/
theorem call_packages_of_error (paths : List String) (hsome : paths ≠ [])
    (hpaths : ∀ path ∈ paths, path ∈ ["lib", "old"]) :
    call Yaml.loader packages [] {} (packagesWords ++ (paths ++ [])) =
      .ok (.ok
        { status := 2
          log := paths.map fun path =>
            skipped ⟨.here, [path, "BUILD"]⟩ (packagesError ⟨.here, [path, "BUILD"]⟩)
          complaints := String.join (paths.map fun path => Path.text ⟨.here, [path, "BUILD"]⟩ ++
            ": parse-error: " ++ (packagesError ⟨.here, [path, "BUILD"]⟩).message ++ "\n") }) := by
  have hdash : ∀ path ∈ paths, path.toList.head? ≠ some '-' := by
    have hlisted : ∀ path ∈ ["lib", "old"], path.toList.head? ≠ some '-' := by decide
    exact fun path hpath => hlisted path (hpaths path hpath)
  have hexist : ∀ path ∈ paths, packages.exists? (.parse path) = true := by
    have hlisted : ∀ path ∈ ["lib", "old"], path ∈ ["lib", "pkg", "old"] := by decide
    exact fun path hpath => forall_packages_exist path (hlisted path (hpaths path hpath))
  have hfiles : paths.flatMap (filesOf packages packagesOptions) =
      paths.map fun path => ⟨.here, [path, "BUILD"]⟩ := by
    rw [← List.flatMap_singleton' (paths.map _), List.flatMap_map]
    exact List.flatMap_congr fun path hpath =>
      (forall_packages_error path (hpaths path hpath)).1
  have herror : ∀ file ∈ paths.map fun path => (⟨.here, [path, "BUILD"]⟩ : Path),
      SourceFile.read packages file (some (.ofPath file)) = .error (packagesError file) := by
    rw [List.forall_mem_map]
    exact fun path hpath => (forall_packages_error path (hpaths path hpath)).2
  have hoptions : packagesOptions = .ofArguments
      { given := [] ++ [("--warnings", some "native-build"), ("--recursive", none)] } := rfl
  have hfix : packagesOptions.fix = false := rfl
  have hjson : packagesOptions.json = false := rfl
  rw [call_eq switches_packages Usage.switches_nil hsome hdash hoptions,
    outcome_run_over hfix hjson settings_packages sound_packages hexist, hfiles,
    report_of_error (by simpa using hsome) herror, shown_settingsLog rfl, List.map_map,
    List.map_map]
  rfl

/-- What a run over the first package comes to. -/
theorem call_lib : call Yaml.loader packages [] {} ["-r", "--warnings", "native-build", "lib"] =
    .ok (.ok
      { status := 2
        log := [⟨.warning,
          "Skipping lib/BUILD: Lexer error at line 1, column 1: Unterminated string"⟩]
        complaints :=
          "lib/BUILD: parse-error: Lexer error at line 1, column 1: Unterminated string\n" }) :=
  (call_packages_of_error ["lib"] (by decide) (by decide)).trans (by decide)

/-- What a run over the last package comes to. -/
theorem call_old : call Yaml.loader packages [] {} ["-r", "--warnings", "native-build", "old"] =
    .ok (.ok
      { status := 2
        log := [⟨.warning,
          "Skipping old/BUILD: Parse error at line 1, column 1: Unexpected token ')'"⟩]
        complaints :=
          "old/BUILD: parse-error: Parse error at line 1, column 1: Unexpected token ')'\n" }) :=
  (call_packages_of_error ["old"] (by decide) (by decide)).trans (by decide)

set_option maxRecDepth 4000 in
/-- A run over the three packages says of the first and the last that they are skipped, prints what
is found in the second, and complains about the first and the last. -/
theorem call_paths_packages :
    ∃ together,
      call Yaml.loader packages [] {} ["-r", "--warnings", "native-build", "lib", "pkg", "old"] =
        .ok (.ok together) ∧
      together.status = 2 ∧
      together.output = "pkg/BUILD:1:1: native-build: The \"native\" module shouldn't be used in "
        ++ "BUILD files, its members are available as global symbols.\n" ∧
      together.log =
        [⟨.warning, "Skipping lib/BUILD: Lexer error at line 1, column 1: Unterminated string"⟩,
          ⟨.warning, "Skipping old/BUILD: Parse error at line 1, column 1: Unexpected token ')'"⟩] ∧
      together.complaints =
        "lib/BUILD: parse-error: Lexer error at line 1, column 1: Unterminated string\n"
          ++ "old/BUILD: parse-error: Parse error at line 1, column 1: Unexpected token ')'\n" := by
  have hfound : call Yaml.loader packages [] {} ["-r", "--warnings", "native-build", "pkg"] =
      .ok (.ok
        { status := 1
          output := "pkg/BUILD:1:1: native-build: The \"native\" module shouldn't be used in "
            ++ "BUILD files, its members are available as global symbols.\n" }) := by cbv
  have hdash : ∀ path ∈ ["lib", "pkg", "old"], path.toList.head? ≠ some '-' := by decide
  obtain ⟨alone, together, halone, htogether, hstatus, hreports⟩ :=
    call_paths switches_packages Usage.switches_nil (List.cons_ne_nil _ _) hdash rfl rfl rfl
      settings_packages
  rw [List.forall_mem_cons, List.forall_mem_cons, List.forall_mem_singleton] at halone
  have hlib := Except.ok.inj (Except.ok.inj (halone.1.symm.trans call_lib))
  have hpkg := Except.ok.inj (Except.ok.inj (halone.2.1.symm.trans hfound))
  have hold := Except.ok.inj (Except.ok.inj (halone.2.2.symm.trans call_old))
  obtain ⟨houtput, hcomplaints, rest, hlog, hlogs, hquiet, -⟩ :=
    hreports sound_packages forall_packages_exist
  rw [(hquiet rfl).1] at hlog hlogs
  rw [List.forall_mem_cons, List.forall_mem_cons, List.forall_mem_singleton] at hlog
  simp only [hlib, hpkg, hold, List.nil_append] at hlog
  simp only [List.map_cons, List.map_nil, hlib, hpkg, hold] at hstatus houtput hcomplaints
  refine ⟨together, htogether, (Option.some.inj hstatus).symm, houtput.trans ?_, hlogs.trans ?_,
    hcomplaints.trans ?_⟩
  · simp
  · simp [← hlog.1, ← hlog.2.1, ← hlog.2.2]
  · simp

set_option maxRecDepth 4000 in
/-- On the channel for errors the runs over two packages do not stand one behind the other: both
are skipped before it is complained about the first.  And the version is printed once, however many
paths there are. -/
theorem errors_call_packages :
    (∀ path ∈ ["lib", "pkg", "old"], packages.exists? (.parse path) = true) ∧
    (∃ first last together,
      call Yaml.loader packages [] {} ["-r", "--warnings", "native-build", "lib"] =
        .ok (.ok first) ∧
      call Yaml.loader packages [] {} ["-r", "--warnings", "native-build", "old"] =
        .ok (.ok last) ∧
      call Yaml.loader packages [] {} ["-r", "--warnings", "native-build", "lib", "old"] =
        .ok (.ok together) ∧
      first.errors (fun _ => "12:00:00") =
        "12:00:00 [WARNING] Skipping lib/BUILD: Lexer error at line 1, column 1: "
          ++ "Unterminated string\n"
          ++ "lib/BUILD: parse-error: Lexer error at line 1, column 1: Unterminated string\n" ∧
      last.errors (fun _ => "12:00:00") =
        "12:00:00 [WARNING] Skipping old/BUILD: Parse error at line 1, column 1: "
          ++ "Unexpected token ')'\n"
          ++ "old/BUILD: parse-error: Parse error at line 1, column 1: Unexpected token ')'\n" ∧
      together.errors (fun _ => "12:00:00") =
        "12:00:00 [WARNING] Skipping lib/BUILD: Lexer error at line 1, column 1: "
          ++ "Unterminated string\n"
          ++ "12:00:00 [WARNING] Skipping old/BUILD: Parse error at line 1, column 1: "
          ++ "Unexpected token ')'\n"
          ++ "lib/BUILD: parse-error: Lexer error at line 1, column 1: Unterminated string\n"
          ++ "old/BUILD: parse-error: Parse error at line 1, column 1: Unexpected token ')'\n" ∧
      together.errors (fun _ => "12:00:00") ≠
        first.errors (fun _ => "12:00:00") ++ last.errors fun _ => "12:00:00") ∧
    ∀ paths ∈ [["lib"], ["old"], ["lib", "old"]],
      call Yaml.loader packages [] {} ("--version" :: paths) = .error .version := by
  refine ⟨forall_packages_exist, ?_, ?_⟩
  · exact ⟨_, _, _, call_lib, call_old,
      call_packages_of_error ["lib", "old"] (by decide) (by decide),
      by decide, by decide, by decide, by decide⟩
  · rw [List.forall_mem_cons, List.forall_mem_cons, List.forall_mem_singleton]
    exact ⟨by cbv, by cbv, by cbv⟩

end StarlarkLint.Lint
