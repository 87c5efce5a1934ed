import PageComposer.Proofs.Path.Names

namespace PageComposer

/-!
# Sizes of paths

A name costs its bytes and a slash (`weight`).  A path is no shorter than the
names among its parts (`weight_namesOf_le`), and joining names to a path makes
it longer by no more than they cost (`byteSize_descend_le`).
-/

/-- The bytes of names, with a slash for each. -/
def weight (names : List Text) : Nat :=
  names.foldr (fun name size => Text.byteSize name + 1 + size) 0

@[simp] theorem weight_nil : weight [] = 0 := rfl

@[simp] theorem weight_cons (name : Text) (names : List Text) :
    weight (name :: names) = Text.byteSize name + 1 + weight names := rfl

@[simp] theorem weight_append (front back : List Text) :
    weight (front ++ back) = weight front + weight back := by
  induction front with
  | nil => exact (Nat.zero_add _).symm
  | cons name others inductionHypothesis =>
      rw [List.cons_append, weight_cons, weight_cons, inductionHypothesis, ← Nat.add_assoc]

theorem weight_le_of_sublist {names more : List Text} (within : names.Sublist more) :
    weight names ≤ weight more := by
  induction within with
  | slnil => exact Nat.le_refl 0
  | cons name _ inductionHypothesis =>
      rw [weight_cons]
      omega
  | cons_cons name _ inductionHypothesis =>
      rw [weight_cons, weight_cons]
      omega

/-- The name that a part is. -/
def Part.name? : Part -> Option Text
  | .name segment => some segment
  | _ => none

/-- The names among parts. -/
def namesOf (parts : List Part) : List Text :=
  parts.filterMap Part.name?

theorem namesOf_append (front back : List Part) :
    namesOf (front ++ back) = namesOf front ++ namesOf back :=
  List.filterMap_append

namespace Path

theorem namesOf_partsOfSegments (segments : List Text) :
    (namesOf (partsOfSegments segments)).Sublist segments := by
  induction segments with
  | nil => exact List.Sublist.slnil
  | cons segment others inductionHypothesis =>
      cases filler : isFiller segment with
      | true =>
          rw [partsOfSegments_cons_filler filler]
          exact inductionHypothesis.cons segment
      | false =>
          rw [partsOfSegments_cons filler]
          by_cases up : segment = ['.', '.']
          · rw [Part.ofSegment, if_pos up]
            exact inductionHypothesis.cons segment
          · rw [Part.ofSegment, if_neg up]
            exact inductionHypothesis.cons_cons segment

theorem weight_segments {segments : List Text} (nonempty : segments ≠ []) :
    weight segments = Text.byteSize (Text.joinWith ['/'] segments) + 1 := by
  induction segments with
  | nil => exact absurd rfl nonempty
  | cons first others inductionHypothesis =>
      by_cases alone : others = []
      · rw [alone, joinWith_singleton, weight_cons, weight_nil, Nat.add_zero]
      · have slash : Char.utf8Size '/' = 1 := by decide
        rw [weight_cons, inductionHypothesis alone, joinWith_cons alone, Text.byteSize_append,
          Text.byteSize_cons, slash]
        omega

/-- A path is no shorter than its names. -/
theorem weight_namesOf_le (path : Path) :
    weight (namesOf path.parts) ≤ Text.byteSize path.text + 1 := by
  have starts : namesOf path.start.parts = [] := by
    cases path.start <;> rfl
  have segments : weight (path.text.splitOn '/') = Text.byteSize path.text + 1 := by
    rw [weight_segments (List.splitOn_ne_nil _ _), Text.joinWith, List.intercalate_splitOn]
  rw [parts_eq, namesOf_append, starts, List.nil_append, ← segments, partsOf_eq]
  exact weight_le_of_sublist (namesOf_partsOfSegments _)

/-- Names make a path longer by no more than they cost. -/
theorem byteSize_descend_le (base : Path) (names : List Text) :
    Text.byteSize (base.descend names).text ≤ Text.byteSize base.text + weight names := by
  induction names using List.reverseRecOn with
  | nil => exact Nat.le_refl _
  | append_singleton front last inductionHypothesis =>
      have longer := byteSize_join_le (base.descend front) last
      rw [descend_concat, weight_append, weight_cons, weight_nil]
      omega

end Path
end PageComposer
