import Mathlib.Data.Char
import Mathlib.Data.List.Lex
import PageComposer.Text.Basic

namespace PageComposer
namespace Text

/-!
# The order of texts

The order by scalar values is the lexicographic one of lists, so it is linear.
-/

theorem precedes_iff {left right : Text} : precedes left right = true ↔ left < right := by
  induction left generalizing right with
  | nil =>
      cases right with
      | nil => simp [precedes]
      | cons head rest => simp [precedes]
  | cons first others inductionHypothesis =>
      cases right with
      | nil => simp [precedes]
      | cons head rest =>
          rw [precedes, List.cons_lt_cons_iff, Bool.or_eq_true, Bool.and_eq_true,
            decide_eq_true_iff, beq_iff_eq, inductionHypothesis]

/-- Of two different texts one precedes the other. -/
theorem lt_of_not_precedes {left right : Text} (different : left ≠ right)
    (notBefore : ¬ precedes left right = true) : right < left := by
  rw [precedes_iff] at notBefore
  exact lt_of_le_of_ne (le_of_not_gt notBefore) (Ne.symm different)

end Text
end PageComposer
