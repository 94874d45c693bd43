import Mathlib.Data.Bool.AllAny
import Mathlib.Data.List.Chain
import StarlarkLint.Text.Letter

/-!
# Letters and digits

No letter is a digit, so that the first character of a word tells it from a number.  The two tables
are compared in one pass, which drops the ranges of digits below each range of letters.

## Main definitions

* `Ranges.apart` — the pass over two tables.

## Main results

* `Ranges.not_holds_of_apart` — tables that lie apart have no code point in common.
* `isDigit_eq_false_of_isWordStart` — what starts a word is no digit.
* `isWordPart_of_isDigit` — every digit may go on with a word.
-/

namespace StarlarkLint.Text

/-- Whether no range of the first table meets one of the second, given that both are ordered. -/
def Ranges.apart : Ranges → Ranges → Bool
  | [], _ => true
  | range :: ranges, others =>
    let later := others.dropWhile (·.2 < range.1)
    later.head?.all (range.2 < ·.1) && Ranges.apart ranges later

/-- Tables that lie apart have no code point in common. -/
theorem Ranges.not_holds_of_apart {n : Nat} {first second : Ranges}
    (hfirst : first.Pairwise (·.1 ≤ ·.1)) (hsecond : second.Pairwise (·.1 ≤ ·.1))
    (hapart : first.apart second) (h : first.holds n = true) : second.holds n = false := by
  by_contra hholds
  obtain ⟨r, hr, hlow, hhigh⟩ := exists_of_holds h
  obtain ⟨q, hq, hqlow, hqhigh⟩ := exists_of_holds ((Bool.not_eq_false _).mp hholds)
  clear h hholds
  induction first generalizing second with
  | nil => exact absurd hr List.not_mem_nil
  | cons range ranges ih =>
    rw [List.pairwise_cons] at hfirst
    simp only [Ranges.apart, Bool.and_eq_true] at hapart
    obtain ⟨hhead, htail⟩ := hapart
    -- a range that is dropped lies below every range of letters from here on
    have hstart : range.1 ≤ r.1 := by
      rcases List.mem_cons.mp hr with rfl | hr
      · exact Nat.le_refl _
      · exact hfirst.1 r hr
    have hlater : q ∈ second.dropWhile (·.2 < range.1) := by
      rw [← List.takeWhile_append_dropWhile (p := (·.2 < range.1)) (l := second)] at hq
      rcases List.mem_append.mp hq with hq | hq
      · have hbelow := List.all_eq_true.mp List.all_takeWhile q hq
        simp only [decide_eq_true_eq] at hbelow
        omega
      · exact hq
    have hordered := hsecond.sublist (List.dropWhile_sublist (·.2 < range.1))
    rcases List.mem_cons.mp hr with rfl | hr
    · generalize second.dropWhile (·.2 < r.1) = later at hlater hordered hhead
      cases later with
      | nil => exact absurd hlater List.not_mem_nil
      | cons q' later =>
        simp only [List.head?_cons, Option.all_some, decide_eq_true_eq] at hhead
        rw [List.pairwise_cons] at hordered
        rcases List.mem_cons.mp hlater with rfl | hlater
        · omega
        · have hafter := hordered.1 q hlater
          omega
    · exact ih hfirst.2 hordered htail hr hlater

theorem letterRanges_ordered : letterRanges.Pairwise (·.1 ≤ ·.1) := by
  have hchain : letterRanges.IsChain fun r q => r.1 ≤ q.1 := by decide +kernel
  have : IsTrans (Nat × Nat) fun r q => r.1 ≤ q.1 := ⟨fun _ _ _ => Nat.le_trans⟩
  exact List.isChain_iff_pairwise.mp hchain

theorem digitRanges_ordered : digitRanges.Pairwise (·.1 ≤ ·.1) := by
  have hchain : digitRanges.IsChain fun r q => r.1 ≤ q.1 := by decide +kernel
  have : IsTrans (Nat × Nat) fun r q => r.1 ≤ q.1 := ⟨fun _ _ _ => Nat.le_trans⟩
  exact List.isChain_iff_pairwise.mp hchain

/-- No letter is a digit. -/
theorem isDigit_eq_false_of_isLetter {c : Char} (h : isLetter c = true) : isDigit c = false := by
  have hapart : letterRanges.apart digitRanges = true := by decide +kernel
  exact Ranges.not_holds_of_apart letterRanges_ordered digitRanges_ordered hapart h

theorem numericRanges_ordered : numericRanges.Pairwise (·.1 ≤ ·.1) := by
  have hchain : numericRanges.IsChain fun r q => r.1 ≤ q.1 := by decide +kernel
  have : IsTrans (Nat × Nat) fun r q => r.1 ≤ q.1 := ⟨fun _ _ _ => Nat.le_trans⟩
  exact List.isChain_iff_pairwise.mp hchain

/-- Digits go on with words and numbers. -/
theorem isWordPart_of_isDigit {c : Char} (h : isDigit c = true) : isWordPart c = true := by
  have hwithin : ∀ q ∈ digitRanges, ∃ r ∈ numericRanges, r.1 ≤ q.1 ∧ q.2 ≤ r.2 := by
    decide +kernel
  obtain ⟨q, hq, hlow, hhigh⟩ := Ranges.exists_of_holds h
  obtain ⟨r, hr, hrlow, hrhigh⟩ := hwithin q hq
  have hnumeric : isNumeric c = true :=
    (Ranges.holds_iff numericRanges_ordered).mpr
      ⟨r, hr, Nat.le_trans hrlow hlow, Nat.le_trans hhigh hrhigh⟩
  simp [isWordPart, hnumeric]

/-- What starts a word is no digit. -/
theorem isDigit_eq_false_of_isWordStart {c : Char} (h : isWordStart c = true) :
    isDigit c = false := by
  simp only [isWordStart, Bool.or_eq_true, beq_iff_eq] at h
  rcases h with rfl | h
  · decide
  · exact isDigit_eq_false_of_isLetter h

/-- What starts a word may also go on with it. -/
theorem isWordPart_of_isWordStart {c : Char} (h : isWordStart c = true) : isWordPart c = true := by
  simp only [isWordStart, isWordPart, Bool.or_eq_true] at h ⊢
  exact .inl h

/-- The characters of the language that stand in no word, blanks among them. -/
def marks : List Char := "\n\t\r #\"'\\*/+=<>!()[]{},:;.-%|".toList

/-- Marks neither start words or numbers nor go on with them. -/
theorem mark_cases {c : Char} (h : c ∈ marks) :
    isWordStart c = false ∧ isWordPart c = false ∧ isDigit c = false := by
  have hall : ∀ c ∈ marks, isWordStart c = false ∧ isWordPart c = false ∧ isDigit c = false :=
    List.all_iff_forall_prop.mp (by decide)
  exact hall c h

theorem not_mem_marks_of_isWordPart {c : Char} (h : isWordPart c = true) : c ∉ marks := by
  intro hmem
  rw [(mark_cases hmem).2.1] at h
  cases h

theorem not_mem_marks_of_isDigit {c : Char} (h : isDigit c = true) : c ∉ marks := by
  intro hmem
  rw [(mark_cases hmem).2.2] at h
  cases h

end StarlarkLint.Text
