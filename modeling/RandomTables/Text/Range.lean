-- SUMMARY: Sets of code points as ascending lists of closed ranges.

/-!
# Ranges of code points

A character property is given as a list of closed ranges in ascending order. Membership stops at
the first range that begins above the code point, so the common low code points are decided early.
-/
namespace RandomTables.Text

/-- A closed range of code points. -/
abbrev CodeRange := Nat × Nat

/-- Whether one of the ranges, which are in ascending order, holds the code point. -/
def inRanges : List CodeRange → Nat → Bool
  | [], _ => false
  | (low, high) :: rest, code =>
    if code < low then false else if code ≤ high then true else inRanges rest code

theorem mem_of_inRanges {ranges : List CodeRange} {code : Nat} (h : inRanges ranges code = true) :
    ∃ r ∈ ranges, r.1 ≤ code ∧ code ≤ r.2 := by
  induction ranges with
  | nil => simp [inRanges] at h
  | cons r rest ih =>
    obtain ⟨low, high⟩ := r
    simp only [inRanges] at h
    split at h
    · simp at h
    · split at h
      · exact ⟨(low, high), by simp, by simp; omega, by simpa⟩
      · obtain ⟨r, hr, hb⟩ := ih h
        exact ⟨r, by simp [hr], hb⟩

end RandomTables.Text
