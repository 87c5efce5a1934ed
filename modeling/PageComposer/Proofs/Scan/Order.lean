import PageComposer.Placeholder

namespace PageComposer

/-!
# Sorting placeholders by their starts

Placeholders that start at different bytes have one order, so a sort finds it
from whatever order they come in.
-/

theorem mergeSort_eq_of_perm {before : Placeholder -> Placeholder -> Bool}
    (transitive : ∀ first second third, before first second = true ->
      before second third = true -> before first third = true)
    (total : ∀ first second, (before first second || before second first) = true)
    {found ordered : List Placeholder} (same : found.Perm ordered)
    (strict : ordered.Pairwise fun left right =>
      before left right = true ∧ before right left = false) :
    found.mergeSort before = ordered := by
  have sorted := List.pairwise_mergeSort transitive total found
  have permuted : (found.mergeSort before).Perm ordered :=
    (List.mergeSort_perm found before).trans same
  have unequal : ∀ first ∈ ordered, ∀ second ∈ ordered,
      before first second = true -> before second first = true -> first = second := by
    intro first firstMember second secondMember
    apply List.Pairwise.forall_of_forall_of_flip (l := ordered)
      (R := fun first second => before first second = true -> before second first = true ->
        first = second) _ _ _ firstMember secondMember
    · intro item _ _ _
      rfl
    · apply strict.imp
      intro left right less _ backward
      rw [less.2] at backward
      cases backward
    · apply strict.imp
      intro left right less forward _
      rw [less.2] at forward
      cases forward
  apply permuted.eq_of_pairwise ?_ sorted (strict.imp And.left)
  intro left right member other
  exact unequal left (permuted.mem_iff.mp member) right other

section ByStart

variable {found ordered : List Placeholder}

/-- Placeholders sort into the order in which they start. -/
theorem mergeSort_ascending (same : found.Perm ordered)
    (strict : ordered.Pairwise fun left right => left.start < right.start) :
    (found.mergeSort fun left right => decide (left.start ≤ right.start)) = ordered := by
  apply mergeSort_eq_of_perm _ _ same
  · apply strict.imp
    intro left right less
    rw [decide_eq_true_eq, decide_eq_false_iff_not]
    omega
  · intro first second third
    simp only [decide_eq_true_eq]
    exact Nat.le_trans
  · intro first second
    simp only [Bool.or_eq_true, decide_eq_true_eq]
    exact Nat.le_total _ _

/-- Sorted by descending starts, placeholders come in reverse. -/
theorem mergeSort_descending (same : found.Perm ordered)
    (strict : ordered.Pairwise fun left right => left.start < right.start) :
    (found.mergeSort fun left right => decide (right.start ≤ left.start)) = ordered.reverse := by
  apply mergeSort_eq_of_perm _ _ (same.trans ordered.reverse_perm.symm)
  · apply (List.pairwise_reverse.mpr strict).imp
    intro left right less
    rw [decide_eq_true_eq, decide_eq_false_iff_not]
    omega
  · intro first second third
    simp only [decide_eq_true_eq]
    intro former latter
    exact Nat.le_trans latter former
  · intro first second
    simp only [Bool.or_eq_true, decide_eq_true_eq]
    exact Nat.le_total _ _

end ByStart
end PageComposer
