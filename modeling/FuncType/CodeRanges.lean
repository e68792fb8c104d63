/-!
# Sets of characters as ranges of code points

A set of characters is given by ranges of code points, both ends included. Where the ranges are
listed in increasing order the search for a character stops at the first range that lies above it,
and still finds every range that holds the character (`covers_iff`).
-/

namespace FuncType

/-- Ranges of code points, both ends included. -/
abbrev CodeRanges := List (Nat × Nat)

namespace CodeRanges

/-- Whether a code point lies in one of the ranges, which are in increasing order. -/
def covers (code : Nat) : CodeRanges → Bool
  | [] => false
  | (first, last) :: more => first ≤ code && (code ≤ last || covers code more)

/-- Whether the ranges are in increasing order. -/
def isIncreasing : CodeRanges → Bool
  | [] => true
  | [_] => true
  | (first, _) :: (next, last) :: more => first ≤ next && isIncreasing ((next, last) :: more)

theorem isIncreasing_tail {range : Nat × Nat} {more : CodeRanges}
    (h : isIncreasing (range :: more)) : isIncreasing more := by
  cases more with
  | nil => rfl
  | cons next rest =>
    rw [isIncreasing, Bool.and_eq_true] at h
    exact h.2

/-- In an increasing list no range starts below the first one. -/
theorem le_of_isIncreasing {range : Nat × Nat} {more : CodeRanges}
    (h : isIncreasing (range :: more)) : ∀ other ∈ more, range.1 ≤ other.1 := by
  induction more generalizing range with
  | nil => simp
  | cons next rest ih =>
    intro other hmem
    have hle : range.1 ≤ next.1 := by
      rw [isIncreasing, Bool.and_eq_true, decide_eq_true_eq] at h
      exact h.1
    rcases List.mem_cons.mp hmem with rfl | hrest
    · exact hle
    · exact Nat.le_trans hle (ih (isIncreasing_tail h) other hrest)

/-- The search that stops early finds what a search through all ranges finds. -/
theorem covers_eq_any {ranges : CodeRanges} (h : isIncreasing ranges) (code : Nat) :
    covers code ranges = ranges.any fun range => range.1 ≤ code && code ≤ range.2 := by
  induction ranges with
  | nil => rfl
  | cons range more ih =>
    rw [covers, List.any_cons, ih (isIncreasing_tail h)]
    by_cases hfirst : range.1 ≤ code
    · simp [hfirst]
    · have hmore : ∀ other ∈ more, ¬ other.1 ≤ code := fun other hmem hle =>
        hfirst (Nat.le_trans (le_of_isIncreasing h other hmem) hle)
      simp [hfirst]
      exact fun first last hmem hle => absurd hle (hmore (first, last) hmem)

/-- Ranges in increasing order cover the code points that lie in one of them. -/
theorem covers_iff {ranges : CodeRanges} (h : isIncreasing ranges) {code : Nat} :
    covers code ranges = true ↔ ∃ range ∈ ranges, range.1 ≤ code ∧ code ≤ range.2 := by
  rw [covers_eq_any h, List.any_eq_true]
  simp only [Bool.and_eq_true, decide_eq_true_eq]

/-- Nothing between the first two ranges is covered. -/
theorem covers_of_gap {range next : Nat × Nat} {more : CodeRanges} {code : Nat}
    (hafter : range.2 < code) (hbefore : code < next.1) :
    covers code (range :: next :: more) = false := by
  rw [covers, covers]
  simp [Nat.not_le.mpr hafter, Nat.not_le.mpr hbefore]

end CodeRanges

end FuncType
