import Mathlib.Data.Prod.Lex
import PageComposer.Path.Basic
import PageComposer.Proofs.Text.Order

namespace PageComposer

/-!
# The order of paths

Of two parts the kinds are compared before the texts, and of two paths the first parts
that differ.  Both orders are lexicographic ones, so the order of paths is linear up to
their parts, and sorting by it arranges them (`pairwise_mergeSort_precedes`).
-/

/-- What is compared of a part. -/
def Part.key (part : Part) : Nat ×ₗ Text :=
  toLex (part.rank, part.text)

theorem Part.key_injective : Function.Injective Part.key := by
  intro left right same
  cases left <;> cases right <;> simp_all [Part.key, Part.rank, Part.text]

theorem Part.precedes_iff {left right : Part} :
    left.precedes right = true ↔ left.key < right.key := by
  unfold key
  rw [Prod.Lex.toLex_lt_toLex]
  cases left <;> cases right <;> simp [precedes, rank, text, Text.precedes_iff]

namespace Path

/-- What is compared of a path. -/
def key (path : Path) : List (Nat ×ₗ Text) :=
  path.parts.map Part.key

theorem key_eq_iff {left right : Path} : left.key = right.key ↔ left.parts = right.parts :=
  (List.map_injective_iff.mpr Part.key_injective).eq_iff

theorem partsPrecede_iff {left right : List Part} :
    partsPrecede left right = true ↔ left.map Part.key < right.map Part.key := by
  induction left generalizing right with
  | nil => cases right <;> simp [partsPrecede]
  | cons first others inductionHypothesis =>
      cases right with
      | nil => simp [partsPrecede]
      | cons head rest =>
          rw [partsPrecede, List.map_cons, List.map_cons, List.cons_lt_cons_iff, Bool.or_eq_true,
            Bool.and_eq_true, Part.precedes_iff, beq_iff_eq, Part.key_injective.eq_iff,
            inductionHypothesis]

theorem precedes_iff {left right : Path} : left.precedes right = true ↔ left.key < right.key :=
  partsPrecede_iff

theorem not_precedes_iff {left right : Path} :
    (!right.precedes left) = true ↔ left.key ≤ right.key := by
  rw [Bool.not_eq_true', ← Bool.not_eq_true, precedes_iff, not_lt]

/-- Paths are sorted by what is compared of them. -/
theorem pairwise_mergeSort_precedes (paths : List Path) :
    (paths.mergeSort fun left right => !right.precedes left).Pairwise
      fun left right => left.key ≤ right.key := by
  have transitive (one other third : Path) (first : (!other.precedes one) = true)
      (second : (!third.precedes other) = true) : (!third.precedes one) = true :=
    not_precedes_iff.mpr (le_trans (not_precedes_iff.mp first) (not_precedes_iff.mp second))
  have total (one other : Path) : (!other.precedes one || !one.precedes other) = true := by
    rw [Bool.or_eq_true, not_precedes_iff, not_precedes_iff]
    exact le_total one.key other.key
  have sorted := List.pairwise_mergeSort transitive total paths
  exact sorted.imp not_precedes_iff.mp

/-- Paths that differ in their parts are sorted strictly. -/
theorem pairwise_mergeSort_of_nodup {paths : List Path} (nodup : paths.Nodup)
    (spelled : ∀ one ∈ paths, ∀ other ∈ paths, one.parts = other.parts -> one = other) :
    (paths.mergeSort fun left right => !right.precedes left).Pairwise
      fun left right => left.precedes right = true := by
  have kept := List.mergeSort_perm paths fun left right => !right.precedes left
  have both := (pairwise_mergeSort_precedes paths).and (kept.nodup_iff.mpr nodup)
  refine both.imp_of_mem fun {one other} first second ordered => ?_
  refine precedes_iff.mpr (lt_of_le_of_ne ordered.1 fun same => ordered.2 ?_)
  exact spelled one (kept.mem_iff.mp first) other (kept.mem_iff.mp second) (key_eq_iff.mp same)

end Path
end PageComposer
