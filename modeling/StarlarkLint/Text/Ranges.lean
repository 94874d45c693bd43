/-!
# Ranges of code points

A class of characters is written as the list of its ranges, in increasing order.  A look-up stops
at the first range that starts above the code point, so that characters early in a table, ASCII
above all, are decided after a few steps.

## Main definitions

* `Ranges` — a list of closed ranges.
* `Ranges.holds` — whether a code point lies in one of them.

## Main results

* `Ranges.holds_iff` — the look-up in an ordered table misses no range.
-/

namespace StarlarkLint.Text

/-- Closed ranges of code points, lowest first. -/
abbrev Ranges := List (Nat × Nat)

/-- Whether a code point lies in one of the ranges. -/
def Ranges.holds (n : Nat) : Ranges → Bool
  | [] => false
  | (low, high) :: ranges => if n < low then false else n ≤ high || Ranges.holds n ranges

@[simp] theorem Ranges.holds_nil (n : Nat) : Ranges.holds n [] = false := rfl

/-- A code point that the table holds lies in one of its ranges. -/
theorem Ranges.exists_of_holds {n : Nat} {ranges : Ranges} (h : ranges.holds n = true) :
    ∃ r ∈ ranges, r.1 ≤ n ∧ n ≤ r.2 := by
  induction ranges with
  | nil => simp at h
  | cons r ranges ih =>
    obtain ⟨low, high⟩ := r
    unfold Ranges.holds at h
    split at h
    · simp at h
    · rename_i hlow
      rcases Bool.or_eq_true_iff.1 h with hhigh | hrest
      · exact ⟨(low, high), by simp, by simpa using hlow, by simpa using hhigh⟩
      · obtain ⟨r, hr, hb⟩ := ih hrest
        exact ⟨r, by simp [hr], hb⟩

/-- In an ordered table a look-up finds every code point that lies in one of the ranges. -/
theorem Ranges.holds_iff {n : Nat} {ranges : Ranges} (h : ranges.Pairwise (·.1 ≤ ·.1)) :
    ranges.holds n = true ↔ ∃ r ∈ ranges, r.1 ≤ n ∧ n ≤ r.2 := by
  refine ⟨exists_of_holds, fun hsome => ?_⟩
  obtain ⟨r, hmem, hlow, hhigh⟩ := hsome
  induction ranges with
  | nil => exact absurd hmem List.not_mem_nil
  | cons first ranges ih =>
    rw [List.pairwise_cons] at h
    rcases List.mem_cons.1 hmem with rfl | hrest
    · simp [Ranges.holds, Nat.not_lt.2 hlow, hhigh]
    · -- the look-up does not stop at the first range, which starts no later than `r`
      have hfirst : ¬ n < first.1 := Nat.not_lt.2 (Nat.le_trans (h.1 r hrest) hlow)
      simp [Ranges.holds, hfirst, ih h.2 hrest]

end StarlarkLint.Text
