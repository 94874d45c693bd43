import Mathlib.Data.List.Nodup
import StarlarkLint.Check.Category

/-!
# Lists of categories

A list of categories is a list of checks, or it has some that no check has.  Then the error names
each of these once, in order, however often and wherever they stand in the list.

## Main results

* `Check.ofNames_eq_ok_iff` — which lists are lists of checks.
* `Check.pairwise_names_of_ofNames`, `Check.mem_names_of_ofNames` — what the error names.
-/

namespace StarlarkLint

/-- What is left of a list without repetitions has none. -/
theorem nodup_eraseDups (names : List String) : names.eraseDups.Nodup := by
  match names with
  | [] => exact List.nodup_nil
  | name :: rest =>
    rw [List.eraseDups_cons, List.nodup_cons, List.mem_eraseDups, List.mem_filter]
    exact ⟨by simp, nodup_eraseDups _⟩
termination_by names.length
decreasing_by
  have hle := List.length_filter_le (fun b => !b == name) rest
  rw [List.length_cons]
  omega

/-- Different categories are named in order. -/
theorem UnknownCategories.pairwise_names {names : List String} (h : names.Nodup) :
    (ofNames names).names.Pairwise (· < ·) := by
  have hsorted : (ofNames names).names.Pairwise fun a b => decide (a ≤ b) = true := by
    apply List.pairwise_mergeSort
    · intro a b c hab hbc
      rw [decide_eq_true_eq] at *
      exact String.le_trans hab hbc
    · intro a b
      rw [Bool.or_eq_true, decide_eq_true_eq, decide_eq_true_eq]
      exact String.le_total a b
  have hnodup : (ofNames names).names.Nodup := (List.mergeSort_perm names _).nodup_iff.mpr h
  exact (hsorted.and hnodup).imp fun hab => Std.lt_of_le_of_ne (of_decide_eq_true hab.1) hab.2

@[simp] theorem UnknownCategories.mem_names {names : List String} {name : String} :
    name ∈ (ofNames names).names ↔ name ∈ names :=
  List.mem_mergeSort

namespace Check

theorem ofName?_eq_some_iff {name : String} {check : Check} :
    ofName? name = some check ↔ name = check.name := by
  constructor
  · intro h
    have hname := List.find?_some h
    exact (eq_of_beq hname).symm
  · rintro rfl
    exact ofName?_name check

theorem ofName?_eq_none_iff {name : String} :
    ofName? name = none ↔ name ∉ all.map Check.name := by
  rw [ofName?, List.find?_eq_none]
  simp

variable {names : List String} {checks : List Check} {e : UnknownCategories}

/-- **The categories of checks** are the lists that are read. -/
theorem ofNames_eq_ok_iff : ofNames names = .ok checks ↔ names = checks.map name := by
  constructor
  · intro h
    unfold ofNames at h
    dsimp only at h
    split at h
    · next hknown =>
      cases h
      rw [List.map_filterMap]
      have hname : ∀ n ∈ names, (ofName? n).map name = some n := by
        intro n hn
        cases hcheck : ofName? n with
        | none => exact absurd (by simp [hcheck]) (List.filter_eq_nil_iff.mp hknown n hn)
        | some check => rw [Option.map_some, ofName?_eq_some_iff.mp hcheck]
      rw [List.filterMap_congr hname, List.filterMap_some]
    · cases h
  · rintro rfl
    exact ofNames_map_name checks

theorem ofNames_eq_error_iff : ofNames names = .error e ↔
    (∃ name ∈ names, ofName? name = none) ∧
      e = .ofNames (names.filter fun name => (ofName? name).isNone).eraseDups := by
  have hunknown : names.filter (fun name => (ofName? name).isNone) ≠ [] ↔
      ∃ name ∈ names, ofName? name = none := by
    simp [List.filter_eq_nil_iff]
  rw [← hunknown]
  unfold ofNames
  by_cases h : names.filter (fun name => (ofName? name).isNone) = []
  · simp [h]
  · simp [h, eq_comm]

/-- **Unknown categories are named once each, in order.** -/
theorem pairwise_names_of_ofNames (h : ofNames names = .error e) : e.names.Pairwise (· < ·) := by
  obtain ⟨-, rfl⟩ := ofNames_eq_error_iff.mp h
  exact UnknownCategories.pairwise_names (nodup_eraseDups _)

/-- What is named are the unknown categories of the list. -/
theorem mem_names_of_ofNames (h : ofNames names = .error e) {name : String} :
    name ∈ e.names ↔ name ∈ names ∧ ofName? name = none := by
  obtain ⟨-, rfl⟩ := ofNames_eq_error_iff.mp h
  rw [UnknownCategories.mem_names, List.mem_eraseDups, List.mem_filter, Option.isNone_iff_eq_none]

end Check

end StarlarkLint
