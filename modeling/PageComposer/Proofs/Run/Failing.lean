import PageComposer.Proofs.Fragment.Failing
import PageComposer.Proofs.Run.Resolution

namespace PageComposer

/-!
# Where the failures of a run come from

Besides the failures of the fragments that it reads, a run has three of its own: a
layout argument that it cannot bind, a linked resource that is not there, and tags that
overlap.  The last one comes from the check that the run begins with, and from
nothing that is resolved behind it (`run_failsIn`).
-/

/-- The check of a run refuses two tags that are neighbours. -/
theorem exists_neighbours_of_ensureDisjoint {template : Path} {descending : List Placeholder}
    {failure : Failure} (refused : ensureDisjoint template descending = .error failure) :
    ∃ front later earlier back, descending = front ++ later :: earlier :: back ∧
      later.start < earlier.stop ∧ failure = .overlapping earlier.tag later.tag template := by
  fun_induction ensureDisjoint template descending with
  | case1 later earlier others overlap =>
      cases refused
      exact ⟨[], later, earlier, others, rfl, overlap, rfl⟩
  | case2 later earlier others _ inductionHypothesis =>
      rcases inductionHypothesis refused with ⟨front, second, first, back, split, found⟩
      exact ⟨later :: front, second, first, back, by rw [split, List.cons_append], found⟩
  | case3 => cases refused

namespace Composer

variable {composer : Composer} {causes : Failure -> Prop} (has : composer.site.Causes causes)

include has

theorem wrapSlot_failsIn (slot : Placeholder) (wrapper bound : Text) :
    FailsIn causes (composer.wrapSlot slot wrapper bound) := by
  have loaded (reference : Placeholder) : FailsIn (OrMissing causes) (do
      let path <- composer.site.locate reference
      let contents <- composer.site.read path
      pure (path, contents)) :=
    (locate_failsIn has reference).bind fun path _ =>
      (read_failsIn has path).bind fun _ _ => .ok _
  unfold wrapSlot
  dsimp only
  split
  · rename_i failure failed
    exact guarded_failsIn (loaded _ failure failed) _
  · exact ((findMainSlot_failsIn _).mono has.markup).bind fun _ _ => .ok _

theorem bindValues_failsIn (value : Text) : FailsIn causes (composer.bindValues value) := by
  refine (FailsIn.mapM (fun part => ?_) _).bind fun _ _ => .ok _
  unfold bindPart
  split
  · exact .ok _
  · split
    · exact .ok _
    · exact .error (has.own _ rfl rfl)

theorem received_failsIn (value? : Option Text) : FailsIn causes (composer.received value?) := by
  cases value? with
  | none => exact .ok _
  | some value => exact bindValues_failsIn has value

theorem slotText_failsIn (slot : Placeholder) (value? : Option Text) :
    FailsIn causes (composer.slotText slot value?) := by
  refine (received_failsIn has value?).bind fun bound _ => ?_
  cases slot.wrapperName? with
  | none => exact .ok _
  | some wrapper => exact wrapSlot_failsIn has slot wrapper bound

theorem fillSlots_failsIn (mode : BindingMode) (args : List Text)
    (slots : List (Placeholder × Nat)) (body : Text) :
    FailsIn causes (composer.fillSlots mode args slots body) := by
  induction slots generalizing body with
  | nil => exact .ok body
  | cons indexed others inductionHypothesis =>
      exact (slotText_failsIn has _ _).bind fun _ _ => inductionHypothesis _

theorem detect_failsIn (tag : Text) (reversedArgs : List Text) :
    FailsIn causes (BindingMode.detect tag reversedArgs) := by
  unfold BindingMode.detect
  split
  · exact .ok _
  · dsimp only
    split
    · exact .error (has.own _ rfl rfl)
    · exact .ok _

theorem layoutText_failsIn (placeholder : Placeholder) :
    FailsIn causes (composer.layoutText placeholder) := by
  have loaded : FailsIn (OrMissing causes) (do
      let path <- composer.site.locate placeholder
      let contents <- readFragment composer.site path
      pure (path, contents)) :=
    (locate_failsIn has placeholder).bind fun path _ =>
      (readFragmentWithin_failsIn has _ _ path).bind fun _ _ => .ok _
  unfold layoutText
  dsimp only
  split
  · rename_i failure failed
    exact guarded_failsIn (loaded failure failed) _
  · refine ((scanKind_failsIn _).mono has.markup).bind fun slots _ => ?_
    refine (detect_failsIn has _ _).bind fun mode _ => ?_
    exact (fillSlots_failsIn has _ _ _ _).bind fun _ _ => .ok _

theorem fileText_failsIn (placeholder : Placeholder) :
    FailsIn causes (composer.fileText placeholder) := by
  have loaded : FailsIn (OrMissing causes)
      (composer.site.locate placeholder >>= readFragment composer.site) :=
    (locate_failsIn has placeholder).bind fun path _ => readFragmentWithin_failsIn has _ _ path
  unfold fileText
  split
  · exact .ok _
  · rename_i failure failed
    exact guarded_failsIn (loaded failure failed) _

theorem linkedAddress_failsIn (template : Path) (placeholder : Placeholder) :
    FailsIn causes (composer.linkedAddress template placeholder) := by
  have registered (resource : Path) : FailsIn causes (if composer.site.holds resource then
      .ok (composer.site.address resource)
    else .error (.missingResource placeholder.kind template resource.text)) := by
    split
    · exact .ok _
    · exact .error (has.own _ rfl rfl)
  unfold linkedAddress
  dsimp only
  split
  · exact registered _
  · split
    · exact registered _
    · rename_i failure failed
      split
      · exact .error (has.own _ rfl rfl)
      · rename_i severe
        exact .error (locate_failsIn has placeholder failure failed (Bool.eq_false_iff.mpr severe))

theorem resolve_failsIn (template : Path) (placeholder : Placeholder) :
    FailsIn causes (composer.resolve template placeholder) := by
  unfold resolve
  split
  · exact .ok _
  · exact (fileText_failsIn has placeholder).map _
  · exact (layoutText_failsIn has placeholder).map _
  · exact .ok _
  · exact (linkedAddress_failsIn has template placeholder).map _
  · exact (linkedAddress_failsIn has template placeholder).map _

/-- Behind its first check a run fails only for what it resolves. -/
theorem run_failsIn {template : Path} {placeholders : List Placeholder}
    (checked : FailsIn causes (ensureDisjoint template
      (placeholders.mergeSort fun left right => right.start ≤ left.start)))
    (options : Options) (document : Text) (includes : Includes) :
    FailsIn causes (composer.run template options document placeholders includes) := by
  unfold run
  refine checked.bind fun _ _ => ?_
  refine FailsIn.bind ?_ fun state _ => ?_
  · rw [foldlM_step]
    exact (FailsIn.mapM (fun placeholder => (resolve_failsIn has template placeholder).map _)
      _).map _
  · dsimp only
    split
    · refine FailsIn.bind ?_ fun _ _ => .ok _
      exact applyWrapWith_failsIn has (fun wrapper => readFragmentWithin_failsIn has _ _ wrapper)
        _ _ _
    · exact .ok _

end Composer
end PageComposer
