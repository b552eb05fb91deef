/-! # Sets of characters given by ranges of code points -/
namespace TruthTables.Text

/-- Whether a code point lies in one of the ranges, which are listed in ascending order. -/
def inRanges (n : Nat) : List (Nat × Nat) → Bool
  | [] => false
  | (lo, hi) :: ranges => decide (lo ≤ n) && (decide (n ≤ hi) || inRanges n ranges)

theorem exists_of_inRanges {n : Nat} {ranges : List (Nat × Nat)} (h : inRanges n ranges = true) :
    ∃ r ∈ ranges, r.1 ≤ n ∧ n ≤ r.2 := by
  induction ranges with
  | nil => simp [inRanges] at h
  | cons r ranges ih =>
    obtain ⟨lo, hi⟩ := r
    simp only [inRanges, Bool.and_eq_true, Bool.or_eq_true, decide_eq_true_eq] at h
    rcases h with ⟨hlo, hhi | hr⟩
    · exact ⟨(lo, hi), by simp, hlo, hhi⟩
    · obtain ⟨q, hq, hb⟩ := ih hr
      exact ⟨q, by simp [hq], hb⟩

end TruthTables.Text
