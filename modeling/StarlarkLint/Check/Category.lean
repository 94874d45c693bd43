/-!
# Categories of checks

Every check looks for one kind of doubtful construct and is called by its category.

## Main definitions

* `Check`, `Check.name`, `Check.all` — the checks, their categories, and their order.
* `Check.defaults` — the checks that run unless asked otherwise.
* `Check.ofNames` — the checks of a list of categories, or those that no check has.

## Main results

* `Check.ofNames_map_name` — the categories of checks are read back as those checks.
-/

namespace StarlarkLint

/-- The checks. -/
inductive Check
  /-- Glob patterns that match one file. -/
  | constantGlob
  /-- Declarations of one name. -/
  | duplicatedName
  /-- Members of the native module in package descriptions. -/
  | nativeBuild
  /-- Calls of the native package function in extension files. -/
  | nativePackage
  /-- Arguments that are not passed by keyword. -/
  | positionalArgs
  /-- Arguments behind stars in package descriptions. -/
  | starArgs
  deriving DecidableEq, Repr, Inhabited

namespace Check

/-- The category of a check. -/
def name : Check → String
  | constantGlob => "constant-glob"
  | duplicatedName => "duplicated-name"
  | nativeBuild => "native-build"
  | nativePackage => "native-package"
  | positionalArgs => "positional-args"
  | starArgs => "build-args-kwargs"

/-- The checks in the order in which they run and are listed. -/
def all : List Check :=
  [constantGlob, duplicatedName, nativeBuild, nativePackage, positionalArgs, starArgs]

/-- The checks that run unless asked otherwise: positional arguments are left out, since many macros
rightly take them. -/
def defaults : List Check := all.filter (· ≠ positionalArgs)

/-- The check of a category. -/
def ofName? (name : String) : Option Check := all.find? (·.name == name)

@[simp] theorem ofName?_name (check : Check) : ofName? check.name = some check := by
  cases check <;> decide

end Check

/-- Categories that no check has, in order. -/
structure UnknownCategories where
  /-- The categories. -/
  names : List String
  deriving DecidableEq, Repr, Inhabited

namespace UnknownCategories

/-- The error for the given categories. -/
def ofNames (names : List String) : UnknownCategories :=
  ⟨names.mergeSort fun a b => decide (a ≤ b)⟩

/-- The error in words. -/
def message (e : UnknownCategories) : String :=
  "Unknown warning categories: " ++ ", ".intercalate e.names

end UnknownCategories

/-- The checks of a list of categories, or the error that names each unknown one once. -/
def Check.ofNames (names : List String) : Except UnknownCategories (List Check) :=
  let unknown := names.filter fun name => (ofName? name).isNone
  if unknown = [] then .ok (names.filterMap ofName?) else .error (.ofNames unknown.eraseDups)

/-- The categories of checks are those checks, in their order. -/
theorem Check.ofNames_map_name (checks : List Check) :
    ofNames (checks.map name) = .ok checks := by
  have hunknown : (checks.map name).filter (fun name => (ofName? name).isNone) = [] := by
    simp
  have hchecks : (checks.map name).filterMap ofName? = checks := by
    rw [List.filterMap_map]
    induction checks with
    | nil => rfl
    | cons check checks ih => simp_all
  unfold ofNames
  rw [if_pos hunknown, hchecks]

end StarlarkLint
