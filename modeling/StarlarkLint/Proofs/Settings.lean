import Mathlib
import StarlarkLint.CommandLine.Lint
import StarlarkLint.Proofs.Check.Category
import StarlarkLint.Proofs.Except
import StarlarkLint.Yaml.Load

/-!
# Settling the layers

The layers are put on each other as mappings of any values, and only what they come to is looked at.
So a key has the value that the highest layer with that key gives it, whatever the layers below hold
and whether it can be used or not; there are settings exactly if the three lists and the dialect can
be used; and if there are none, it is told why.  Only of a dialect that has no text, since it holds
a number with too many digits, it is not.

All this holds whatever reader reads the file.

## Main definitions

* `Value.Lists`, `Value.Asks` — the names that a value lists, and the dialect that it asks for.
* `Layers.Named` — the names that the keys list in the end, where all categories are known.
* `SettingsFailure.Reported` — it is told why there are no settings.
* `Settings.Chosen` — the file that settings are read from, and the mapping that it holds.

## Main results

* `Layers.effective_eq` — the highest layer that has a key decides.
* `Layers.settle_eq_ok_iff`, `Layers.reported_iff_of_settle` — what the layers are settled to.
* `Settings.load_iff` — when there are settings, what they are, and that it is told why if there are
  none.
-/

namespace StarlarkLint

/-! ### Mappings -/

namespace Value

theorem lookup?_append (entries more : List (Value × Value)) (key : String) :
    lookup? (entries ++ more) key = (lookup? entries key).or (lookup? more key) := by
  rw [lookup?, List.find?_append, Option.map_or]
  rfl

/-- **Entries that are put into a mapping** hide those that were there. -/
theorem lookup?_update (config entries : List (Value × Value)) (key : String) :
    lookup? (update config entries) key = (lookup? entries key).or (lookup? config key) :=
  lookup?_append entries config key

/-- A mapping of text keys gives the value of a key as a list of keys does. -/
theorem lookup?_map_text (entries : List (String × Value)) (key : String) :
    lookup? (entries.map fun (k, v) => (.text k, v)) key = entries.lookup key := by
  induction entries with
  | nil => rfl
  | cons entry entries ih =>
    obtain ⟨k, v⟩ := entry
    rw [lookup?] at ih ⊢
    rw [List.map_cons, List.find?_cons, List.lookup_cons]
    by_cases h : k = key
    · subst h
      simp
    · have hne : (key == k) = false := by simpa using Ne.symm h
      have hne' : (k == key) = false := by simpa using h
      simp only [hne, hne']
      exact ih

end Value

/-! ### Names of dialects -/

namespace Dialect

theorem eq_name_of_ofName? {name : String} {d : Dialect} (h : ofName? name = some d) :
    name = d.name := by
  have hname := List.find?_some h
  exact (eq_of_beq hname).symm

/-- The text of a dialect is not the name of one. -/
theorem toLower_text_ne_name (d d' : Dialect) : d.text.toLower ≠ d'.name := by
  intro h
  have hletters := congrArg String.toList h
  rw [String.toLower, String.toList_map] at hletters
  cases d <;> cases d' <;> exact absurd hletters (by decide)

end Dialect

/-! ### What values stand for -/

namespace Value

/-- The names that a value lists: those of a comma list, or the texts of a list. -/
inductive Lists : Value → List String → Prop
  /-- A comma list. -/
  | comma (s : String) : Lists (.text s) (Text.commaList s)
  /-- A list of texts. -/
  | texts (names : List String) : Lists (.list (names.map .text)) names

/-- The dialect that a value asks for: none, the one that it is, or the one whose name its text is
in lower case. -/
inductive Asks : Value → Option Dialect → Prop
  /-- No dialect is asked for. -/
  | nothing : Asks .null none
  /-- The value is a dialect. -/
  | given (d : Dialect) : Asks (.dialect d) (some d)
  /-- The text is the name of a dialect. -/
  | dialect {value : Value} {s : String} {d : Dialect} (hvalue : value.spelled? = some s)
    (hname : s.toLower = d.name) : Asks value (some d)

/-- A value has no text only if it cannot be shown. -/
theorem spelled?_eq_none_iff {value : Value} :
    value.spelled? = none ↔ value.isShowable = false := by
  unfold spelled?
  split
  · simp [isShowable]
  · simp [isShowable]
  · simp [isShowable]
  · simp [isShowable]
  · cases isShowable _ <;> simp

/-- An integer with too many digits has no text. -/
theorem spelled?_int_eq_none {n : Int} (h : 10 ^ digitLimit ≤ n.natAbs) :
    (Value.int n).spelled? = none := by
  have hpow : ∀ k : Nat, Nat.pow 10 k = 10 ^ k := fun _ => rfl
  rw [spelled?_eq_none_iff, isShowable, decide_eq_false_iff_not, hpow]
  exact Nat.not_lt.mpr h

theorem not_asks_null (d : Dialect) : ¬ Asks .null (some d) := by
  intro h
  cases h with
  | dialect hvalue hname =>
    obtain rfl : "None" = _ := Option.some.inj hvalue
    have hletters := congrArg String.toList hname
    rw [String.toLower, String.toList_map] at hletters
    cases d <;> exact absurd hletters (by decide)

/-- What asks for a dialect, or for none, has a text. -/
theorem Asks.spelled?_ne_none {value : Value} {d : Option Dialect} (h : value.Asks d) :
    value.spelled? ≠ none := by
  cases h with
  | nothing => exact Option.some_ne_none "None"
  | given d => exact Option.some_ne_none d.text
  | dialect hvalue _ => rw [hvalue]; exact Option.some_ne_none _

end Value

namespace Layers

variable {layers : Layers} {key : SettingKey} {names : List String}

theorem texts?_eq_some_iff {values : List Value} :
    texts? values = some names ↔ values = names.map .text := by
  induction values generalizing names with
  | nil => cases names <;> simp [texts?]
  | cons value values ih =>
    cases value with
    | text s =>
      rw [texts?, Option.map_eq_some_iff]
      constructor
      · rintro ⟨rest, hrest, rfl⟩
        rw [ih.mp hrest, List.map_cons]
      · cases names with
        | nil => intro h; cases h
        | cons name names =>
          rw [List.map_cons, List.cons.injEq, Value.text.injEq]
          rintro ⟨rfl, hrest⟩
          exact ⟨names, ih.mpr hrest, rfl⟩
    | _ => cases names <;> simp [texts?]

theorem names?_eq_some_iff {value : Value} : names? value = some names ↔ value.Lists names := by
  constructor
  · intro h
    cases value with
    | text s =>
      obtain rfl : Text.commaList s = names := Option.some.inj h
      exact .comma s
    | list values =>
      rw [names?, texts?_eq_some_iff] at h
      subst h
      exact .texts names
    | _ => cases h
  · rintro (s | names)
    · rfl
    · exact texts?_eq_some_iff.mpr rfl

theorem names_eq_ok_iff : layers.names key = .ok names ↔ (layers.effective key).Lists names := by
  rw [← names?_eq_some_iff, Layers.names]
  cases names? (layers.effective key) <;> simp

theorem names_eq_error {e : SettingsFailure} (h : layers.names key = .error e) :
    e = .refused (.notNames key.name) := by
  unfold Layers.names at h
  split at h
  · cases h
  · exact (Except.error.inj h).symm

/-! ### The highest layer decides -/

end Layers

/-- The names that the environment sets a key to. -/
def Environment.listed? (environment : Environment) (key : SettingKey) : Option Value :=
  let names := match key with
    | .warnings => environment.warnings
    | .disabled => environment.disabled
    | .exempt | .dialect => none
  names.map fun names => .list ((Text.commaList names).map .text)

theorem Environment.lookup?_entries (environment : Environment) (key : SettingKey) :
    Value.lookup? environment.entries key.name = environment.listed? key := by
  obtain ⟨warnings, disabled⟩ := environment
  cases warnings <;> cases disabled <;> cases key <;> rfl

theorem SettingKey.lookup?_defaults (key : SettingKey) :
    Value.lookup? defaults key.name = some key.default := by
  cases key <;> rfl

namespace Layers

/-- **The highest layer that has a key decides**: what the caller states, if it is something, then
the environment, then the file, even if it has no value there, and then the default. -/
theorem effective_eq (layers : Layers) (key : SettingKey) :
    layers.effective key =
      ((((layers.overrides.filter fun (_, value) => !value.isNull).lookup key.name).or
        (layers.environment.listed? key)).or
          (Value.lookup? layers.document key.name)).getD key.default := by
  rw [effective, merged, Value.lookup?_update, Value.lookup?_update, Value.lookup?_update, stated,
    Value.lookup?_map_text, Environment.lookup?_entries, SettingKey.lookup?_defaults,
    ← Option.or_assoc, ← Option.or_assoc, Option.or_some, Option.getD_some]

/-! ### What the layers are settled to -/

/-- The names that the three keys list in the end, where all categories are known. -/
structure Named (layers : Layers) (warnings disabled exempt : List String) : Prop where
  /-- The categories to check. -/
  lists_warnings : (layers.effective .warnings).Lists warnings
  /-- The categories not to check. -/
  lists_disabled : (layers.effective .disabled).Lists disabled
  /-- The functions that may take positional arguments. -/
  lists_exempt : (layers.effective .exempt).Lists exempt
  /-- The categories are those of checks. -/
  known : ∀ name ∈ warnings ++ disabled, name ∈ Check.all.map Check.name

/-- The settings of names and a dialect. -/
def settled (warnings disabled exempt : List String) (dialect : Option Dialect) : Settings :=
  { checks := Check.all.filter fun c => c.name ∈ warnings ∧ c.name ∉ disabled
    exempt := sortNames (PositionalArgs.exempt ++ exempt)
    dialect }

end Layers

/-- It is told why there are no settings, and the program does not fail. -/
def SettingsFailure.Reported (e : SettingsFailure) : Prop := ∃ reason, e = refused reason

theorem SettingsFailure.reported_refused (reason : SettingsError) : (refused reason).Reported :=
  ⟨reason, rfl⟩

theorem SettingsFailure.not_reported_failed (fault : SettingsFault) :
    ¬ (failed fault).Reported := by
  rintro ⟨reason, ⟨⟩⟩

namespace Layers

variable {layers : Layers} {warnings disabled exempt : List String}

/-- Where all names are known, the dialect decides. -/
theorem settle_of_named (h : layers.Named warnings disabled exempt) :
    layers.settle = layers.dialect.map (settled warnings disabled exempt) := by
  have hknown : (warnings ++ disabled).filter (fun name => (Check.ofName? name).isNone) = [] := by
    rw [List.filter_eq_nil_iff]
    intro name hname hnone
    rw [Option.isNone_iff_eq_none, Check.ofName?_eq_none_iff] at hnone
    exact hnone (h.known name hname)
  unfold settle
  rw [names_eq_ok_iff.mpr h.lists_warnings, names_eq_ok_iff.mpr h.lists_disabled,
    names_eq_ok_iff.mpr h.lists_exempt]
  simp only [bind, Except.bind, hknown]
  cases layers.dialect <;> rfl

/-- All names are known, or it is told that they are not. -/
theorem settle_cases (layers : Layers) : (∃ warnings disabled exempt,
    layers.Named warnings disabled exempt) ∨ ∃ e, e.Reported ∧ layers.settle = .error e := by
  have hreported : ∀ {key e}, layers.names key = .error e → e.Reported := by
    intro key e h
    rw [names_eq_error h]
    exact SettingsFailure.reported_refused _
  cases hwarnings : layers.names .warnings with
  | error e => exact .inr ⟨e, hreported hwarnings, by rw [settle, hwarnings]; rfl⟩
  | ok warnings =>
    cases hdisabled : layers.names .disabled with
    | error e => exact .inr ⟨e, hreported hdisabled, by rw [settle, hwarnings, hdisabled]; rfl⟩
    | ok disabled =>
      cases hexempt : layers.names .exempt with
      | error e =>
        exact .inr ⟨e, hreported hexempt, by rw [settle, hwarnings, hdisabled, hexempt]; rfl⟩
      | ok exempt =>
        by_cases hknown : ∀ name ∈ warnings ++ disabled, name ∈ Check.all.map Check.name
        · exact .inl ⟨warnings, disabled, exempt, names_eq_ok_iff.mp hwarnings,
            names_eq_ok_iff.mp hdisabled, names_eq_ok_iff.mp hexempt, hknown⟩
        · have hunknown :
              (warnings ++ disabled).filter (fun name => (Check.ofName? name).isNone) ≠ [] := by
            rw [Ne, List.filter_eq_nil_iff]
            intro hall
            refine hknown fun name hname => ?_
            by_contra hnot
            exact hall name hname
              (Option.isNone_iff_eq_none.mpr (Check.ofName?_eq_none_iff.mpr hnot))
          refine .inr ⟨.refused (.unknown (.ofNames ((warnings ++ disabled).filter fun name =>
            (Check.ofName? name).isNone).eraseDups)), SettingsFailure.reported_refused _, ?_⟩
          rw [settle, hwarnings, hdisabled, hexempt]
          exact if_pos hunknown

/-- The dialect that is asked for. -/
theorem dialect_eq_ok_iff {d : Option Dialect} :
    layers.dialect = .ok d ↔ (layers.effective .dialect).Asks d := by
  unfold Layers.dialect
  generalize layers.effective .dialect = value
  split
  · constructor
    · rintro ⟨⟩
      exact .nothing
    · intro h
      cases d with
      | none => rfl
      | some d => exact absurd h (Value.not_asks_null d)
  · next given =>
    constructor
    · rintro ⟨⟩
      exact .given given
    · rintro (_ | _ | ⟨hvalue, htext⟩)
      · rfl
      · obtain rfl : given.text = _ := Option.some.inj hvalue
        exact absurd htext (Dialect.toLower_text_ne_name given _)
  · next hnull hgiven =>
    split
    · next hspelled =>
      refine iff_of_false (by rintro ⟨⟩) ?_
      rintro (_ | given | ⟨hvalue, -⟩)
      · exact hnull rfl
      · exact hgiven given rfl
      · rw [hspelled] at hvalue
        cases hvalue
    · next text hspelled =>
      split
      · next dialect hname =>
        constructor
        · rintro ⟨⟩
          exact .dialect hspelled (Dialect.eq_name_of_ofName? hname)
        · rintro (_ | given | ⟨hvalue, htext⟩)
          · exact absurd rfl hnull
          · exact absurd rfl (hgiven given)
          · rw [hspelled, Option.some.injEq] at hvalue
            rw [hvalue, htext, Dialect.ofName?_name] at hname
            rw [hname]
      · next hname =>
        refine iff_of_false (by rintro ⟨⟩) ?_
        rintro (_ | given | ⟨hvalue, htext⟩)
        · exact hnull rfl
        · exact hgiven given rfl
        · rw [hspelled, Option.some.injEq] at hvalue
          rw [hvalue, htext, Dialect.ofName?_name] at hname
          cases hname

/-- It is told that a value is no dialect, unless it has no text. -/
theorem dialect_eq_error {e : SettingsFailure} (h : layers.dialect = .error e) :
    e.Reported ↔ (layers.effective .dialect).spelled? ≠ none := by
  unfold Layers.dialect at h
  generalize layers.effective .dialect = value at h
  split at h
  · cases h
  · cases h
  · split at h
    · next hspelled =>
      cases h
      exact iff_of_false (SettingsFailure.not_reported_failed _) fun hne => hne hspelled
    · next text hspelled =>
      split at h
      · cases h
      · cases h
        refine iff_of_true (SettingsFailure.reported_refused _) ?_
        rw [hspelled]
        exact Option.some_ne_none text

/-- **There are settings** exactly if the names are known and a dialect is asked for, or none. -/
theorem settle_eq_ok_iff {s : Settings} : layers.settle = .ok s ↔
    ∃ warnings disabled exempt dialect, layers.Named warnings disabled exempt ∧
      (layers.effective .dialect).Asks dialect ∧ s = settled warnings disabled exempt dialect := by
  constructor
  · intro h
    rcases layers.settle_cases with ⟨warnings, disabled, exempt, hnamed⟩ | ⟨e, -, herror⟩
    · rw [settle_of_named hnamed, map_eq_ok_iff] at h
      obtain ⟨dialect, hdialect, rfl⟩ := h
      exact ⟨warnings, disabled, exempt, dialect, hnamed, dialect_eq_ok_iff.mp hdialect, rfl⟩
    · rw [herror] at h
      cases h
  · rintro ⟨warnings, disabled, exempt, dialect, hnamed, hasks, rfl⟩
    rw [settle_of_named hnamed, dialect_eq_ok_iff.mpr hasks]
    rfl

/-- **It is told that there are no settings**, unless only the dialect is amiss, and has no text. -/
theorem reported_iff_of_settle {e : SettingsFailure} (h : layers.settle = .error e) :
    e.Reported ↔ ¬ ((∃ warnings disabled exempt, layers.Named warnings disabled exempt) ∧
      (layers.effective .dialect).spelled? = none) := by
  by_cases hnamed : ∃ warnings disabled exempt, layers.Named warnings disabled exempt
  · obtain ⟨warnings, disabled, exempt, hnames⟩ := hnamed
    rw [settle_of_named hnames, map_eq_error_iff] at h
    rw [dialect_eq_error h]
    exact ⟨fun hne hnone => hne hnone.2, fun hnot hnone => hnot ⟨⟨_, _, _, hnames⟩, hnone⟩⟩
  · obtain ⟨e', hreported, herror⟩ := layers.settle_cases.resolve_left hnamed
    rw [h, Except.error.injEq] at herror
    subst herror
    exact iff_of_true hreported fun hnone => hnamed hnone.1

theorem mem_sortNames {names : List String} {name : String} :
    name ∈ sortNames names ↔ name ∈ names := by
  rw [sortNames, List.mem_mergeSort, List.mem_eraseDups]

end Layers

/-! ### Loading settings -/

namespace Settings

variable {loader : Loader} {disk : Disk} {search : List Path} {asked : Option Path}
  {document : List (Value × Value)} {source : Option Path}

/-- The file that settings are read from, if there is one, and the mapping that it holds. -/
inductive Chosen (loader : Loader) (disk : Disk) (search : List Path) (asked : Option Path) :
    List (Value × Value) → Option Path → Prop
  /-- There is no file. -/
  | none (hfile : findFile disk search asked = .ok none) : Chosen loader disk search asked [] none
  /-- There is a file, and it can be read. -/
  | file {path : Path} {document : List (Value × Value)}
    (hfile : findFile disk search asked = .ok (some path))
    (hdocument : readFile loader disk path = .ok document) :
    Chosen loader disk search asked document (some path)

theorem load_of_chosen (h : Chosen loader disk search asked document source)
    (environment : Environment) (overrides : List (String × Value)) :
    load loader disk search environment asked overrides =
      (Layers.settle { document, environment, overrides }).map fun s => { s with source } := by
  cases h with
  | none hfile =>
    have hload : load loader disk search environment asked overrides =
        Layers.settle { environment, overrides } := by
      rw [load, hfile]
      rfl
    rw [hload]
    cases hsettle : Layers.settle { environment, overrides } with
    | error e => rfl
    | ok s =>
      obtain ⟨_, _, _, _, -, -, rfl⟩ := Layers.settle_eq_ok_iff.mp hsettle
      rfl
  | file hfile hdocument =>
    rw [load, hfile]
    simp only [bind, Except.bind, hdocument]
    cases Layers.settle { document, environment, overrides } <;> rfl

theorem load_eq_ok_iff (h : Chosen loader disk search asked document source)
    {environment : Environment} {overrides : List (String × Value)} {s : Settings} :
    load loader disk search environment asked overrides = .ok s ↔
      ∃ warnings disabled exempt dialect,
        Layers.Named { document, environment, overrides } warnings disabled exempt ∧
          (Layers.effective { document, environment, overrides } .dialect).Asks dialect ∧
            s = { Layers.settled warnings disabled exempt dialect with source } := by
  rw [load_of_chosen h, map_eq_ok_iff]
  constructor
  · rintro ⟨s', hsettle, rfl⟩
    obtain ⟨warnings, disabled, exempt, dialect, hnamed, hasks, rfl⟩ :=
      Layers.settle_eq_ok_iff.mp hsettle
    exact ⟨warnings, disabled, exempt, dialect, hnamed, hasks, rfl⟩
  · rintro ⟨warnings, disabled, exempt, dialect, hnamed, hasks, rfl⟩
    exact ⟨_, Layers.settle_eq_ok_iff.mpr ⟨warnings, disabled, exempt, dialect, hnamed, hasks, rfl⟩,
      rfl⟩

/-- Where the file can be read, it is told that there are no settings, unless only the dialect is
amiss, and has no text. -/
theorem reported_iff_of_load (h : Chosen loader disk search asked document source)
    {environment : Environment} {overrides : List (String × Value)} {e : SettingsFailure}
    (he : load loader disk search environment asked overrides = .error e) :
    e.Reported ↔ ¬ ((∃ warnings disabled exempt,
        Layers.Named { document, environment, overrides } warnings disabled exempt) ∧
      (Layers.effective { document, environment, overrides } .dialect).spelled? = none) := by
  rw [load_of_chosen h, map_eq_error_iff] at he
  exact Layers.reported_iff_of_settle he

/-- **When there are settings, what they are, and that it is told when there are none.**  Each key
has the value of the highest layer with that key.  There are settings exactly if the three lists are
lists of names, those of categories are known, and the dialect is left open, is a dialect, or has a
text that is the name of one.  Otherwise it is told why, but for names that are all known beside a
dialect that has no text. -/
theorem load_iff (h : Chosen loader disk search asked document source) (environment : Environment)
    (overrides : List (String × Value)) :
    let layers : Layers := { document, environment, overrides }
    (∀ key, layers.effective key =
      ((((overrides.filter fun (_, value) => !value.isNull).lookup key.name).or
        (environment.listed? key)).or (Value.lookup? document key.name)).getD key.default) ∧
    ((∃ s, load loader disk search environment asked overrides = .ok s) ↔
      (∃ warnings disabled exempt, layers.Named warnings disabled exempt) ∧
        ∃ dialect, (layers.effective .dialect).Asks dialect) ∧
    (∀ s, load loader disk search environment asked overrides = .ok s →
      ∃ warnings disabled exempt, layers.Named warnings disabled exempt ∧
        s.checks.map Check.name =
          (Check.all.map Check.name).filter (fun c => c ∈ warnings ∧ c ∉ disabled) ∧
        (s.checks.map Check.name).Nodup ∧
        (∀ name, name ∈ s.exempt ↔ name ∈ PositionalArgs.exempt ∨ name ∈ exempt) ∧
        (layers.effective .dialect).Asks s.dialect ∧ s.source = source) ∧
    (¬ ((∃ warnings disabled exempt, layers.Named warnings disabled exempt) ∧
        (layers.effective .dialect).spelled? = .none) →
      (∃ s, load loader disk search environment asked overrides = .ok s) ∨
        ∃ reason, load loader disk search environment asked overrides =
          .error (.refused reason)) := by
  intro layers
  refine ⟨layers.effective_eq, ⟨?_, ?_⟩, ?_, ?_⟩
  · rintro ⟨s, hs⟩
    obtain ⟨warnings, disabled, exempt, dialect, hnamed, hasks, -⟩ := (load_eq_ok_iff h).mp hs
    exact ⟨⟨warnings, disabled, exempt, hnamed⟩, dialect, hasks⟩
  · rintro ⟨⟨warnings, disabled, exempt, hnamed⟩, dialect, hasks⟩
    exact ⟨_, (load_eq_ok_iff h).mpr ⟨warnings, disabled, exempt, dialect, hnamed, hasks, rfl⟩⟩
  · intro s hs
    obtain ⟨warnings, disabled, exempt, dialect, hnamed, hasks, rfl⟩ := (load_eq_ok_iff h).mp hs
    have hnames : (Check.all.filter fun c => c.name ∈ warnings ∧ c.name ∉ disabled).map Check.name =
        (Check.all.map Check.name).filter (fun c => c ∈ warnings ∧ c ∉ disabled) := by
      rw [List.filter_map]
      rfl
    have hnodup : (Check.all.map Check.name).Nodup := by decide
    refine ⟨warnings, disabled, exempt, hnamed, hnames, hnames ▸ hnodup.filter _, ?_, hasks, rfl⟩
    intro name
    exact Layers.mem_sortNames.trans List.mem_append
  · intro hnot
    cases hload : load loader disk search environment asked overrides with
    | ok s => exact .inl ⟨s, rfl⟩
    | error e =>
      obtain ⟨reason, rfl⟩ := (reported_iff_of_load h hload).mpr hnot
      exact .inr ⟨reason, rfl⟩

/-- A disk whose file of settings asks for a dialect. -/
def askingDisk : Disk :=
  { entries := [([fileName], .file (Text.encode "\"file_type\": \"Bzl\""))] }

/-- The mapping in that file. -/
def askingDocument : List (Value × Value) := [(.text "file_type", .text "Bzl")]

theorem chosen_asking : Chosen Yaml.loader askingDisk [⟨.here, [fileName]⟩] none askingDocument
    (some ⟨.here, [fileName]⟩) := by
  have htree : Yaml.document "\"file_type\": \"Bzl\"" =
      .ok (some (.mapping none [(.scalar none "file_type" false, .scalar none "Bzl" false)])) := by
    cbv
  have htext : Text.decodeUtf8? (Text.encode "\"file_type\": \"Bzl\"") =
      some "\"file_type\": \"Bzl\"" := by cbv
  have hload : Yaml.loader (Text.encode "\"file_type\": \"Bzl\"") =
      .ok (.map askingDocument) := by
    simp only [Yaml.loader, htext, Yaml.load, htree]
    rfl
  have hread : askingDisk.read ⟨.here, [fileName]⟩ =
      .ok (Text.encode "\"file_type\": \"Bzl\"") := by rfl
  refine .file (by cbv) ?_
  simp only [readFile, hread, Except.mapError, bind, Except.bind, hload]

/-- Whatever the caller states for the dialect, the other keys keep their defaults. -/
theorem named_asking (stated : Option Value) :
    Layers.Named { document := askingDocument
                   overrides := (stated.map fun value => ("file_type", value)).toList }
      (Check.defaults.map Check.name) [] [] := by
  have hdefault : ∀ key : SettingKey, key ≠ .dialect → Layers.effective
      { document := askingDocument
        overrides := (stated.map fun value => ("file_type", value)).toList } key =
          key.default := by
    intro key hkey
    rw [Layers.effective_eq]
    cases stated with
    | none => cases key <;> first | exact absurd rfl hkey | rfl
    | some value =>
      cases hvalue : value.isNull <;> cases key <;>
        first | exact absurd rfl hkey | simp [hvalue, SettingKey.name]; rfl
  refine ⟨?_, ?_, ?_, by decide⟩
  · rw [hdefault _ (by decide)]
    exact .texts (Check.defaults.map Check.name)
  · rw [hdefault _ (by decide)]
    exact .texts []
  · rw [hdefault _ (by decide)]
    exact .texts []

/-- The file asks for the dialect of extension files, however it is written.  If the caller states a
text that is no name of a dialect in its place, it is told that there are no settings. -/
theorem load_iff_asking :
    (∃ s, load Yaml.loader askingDisk [⟨.here, [fileName]⟩] {} none [] = .ok s) ∧
      ∃ reason, load Yaml.loader askingDisk [⟨.here, [fileName]⟩] {} none
        [("file_type", .text "starlark")] = .error (.refused reason) := by
  constructor
  · refine (load_iff chosen_asking {} []).2.1.mpr ⟨⟨_, _, _, named_asking none⟩, some .bzl, ?_⟩
    have hvalue : Layers.effective { document := askingDocument } .dialect = .text "Bzl" := by rfl
    rw [hvalue]
    refine .dialect rfl (String.toList_injective ?_)
    rw [String.toLower, String.toList_map]
    decide
  · have hvalue : Layers.effective { document := askingDocument
                                     overrides := [("file_type", .text "starlark")] } .dialect =
        .text "starlark" := by rfl
    obtain ⟨-, hok, -, htold⟩ := load_iff chosen_asking {} [("file_type", .text "starlark")]
    rw [hvalue] at hok htold
    refine (htold fun hnone => Option.some_ne_none _ hnone.2).resolve_left fun hs => ?_
    obtain ⟨-, dialect, hasks⟩ := hok.mp hs
    cases hasks with
    | @dialect _ _ d htext hname =>
      obtain rfl : "starlark" = _ := Option.some.inj htext
      have hletters := congrArg String.toList hname
      rw [String.toLower, String.toList_map] at hletters
      cases d <;> exact absurd hletters (by decide)

/-- A dialect that the caller states is taken as it is, although it is neither left open nor has a
text that is the name of one. -/
theorem load_dialect_given :
    let value := Layers.effective { overrides := [("file_type", .dialect .build)] } .dialect
    (∃ s, load Yaml.loader {} [] {} none [("file_type", .dialect .build)] = .ok s ∧
      s.dialect = some .build) ∧
    value ≠ .null ∧ value.spelled? = some "FileType.BUILD" ∧
      ∀ d : Dialect, "FileType.BUILD".toLower ≠ d.name := by
  intro value
  have hvalue : value = .dialect .build := by rfl
  refine ⟨⟨_, by rfl, rfl⟩, ?_, ?_, Dialect.toLower_text_ne_name .build⟩
  · rw [hvalue]
    rintro ⟨⟩
  · rw [hvalue]
    rfl

end Settings

end StarlarkLint
