import PageComposer.Proofs.Fragment.Slot
import PageComposer.Proofs.Layout.Arguments
import PageComposer.Proofs.Layout.Value
import PageComposer.Proofs.Run.Degradation

namespace PageComposer

/-!
# Filling the slots of a layout

A slot holds the markup of the value that it receives, inside the wrapper that it
names, if it names one (`Placed`).  Filling goes through the slots from the last
one to the first, in a text that changes on the way.  What it ends with is the
layout with all slots replaced at once (`layoutText_eq_ok_iff`), and it fails
with the last slot that cannot be filled (`layoutText_of_firstUntyped`).
-/

theorem findMainSlot_of_mainSlot {site : Site} {wrapper : Path} {text before after : Text}
    {slot : Placeholder} (main : MainSlot site wrapper text slot before after) :
    findMainSlot site wrapper text = .ok slot := by
  rcases main.only with ⟨slots, scanned, only⟩
  unfold findMainSlot
  rw [scanned]
  dsimp only [bind, Except.bind]
  rw [only]
  rfl

namespace Composer

variable {composer : Composer} {slot : Placeholder} {value? : Option Text} {bound text : Text}

/-- What stands in place of a slot that has received `bound`. -/
inductive Placed (composer : Composer) (slot : Placeholder) (bound : Text) : Text -> Prop
  /-- A slot without a wrapper. -/
  | bare (unwrapped : slot.wrapperName? = none) : Placed composer slot bound bound
  /-- The wrapper as it is stored, around what the slot has received. -/
  | wrapped {wrapper contents before after : Text} {path : Path} {main : Placeholder}
      (named : slot.wrapperName? = some wrapper)
      (located : composer.site.locate (slot.slotWrapper wrapper) = .ok path)
      (read : composer.site.read path = .ok contents)
      (inside : MainSlot composer.site path contents main before after) :
      Placed composer slot bound (before ++ bound ++ after)
  /-- A block for a wrapper that is not there. -/
  | unresolved {wrapper : Text} {failure : Failure} (named : slot.wrapperName? = some wrapper)
      (lost : failure.isResolution = true)
      (missing : composer.site.Misses (slot.slotWrapper wrapper) failure) :
      Placed composer slot bound (unprocessedBlock (slot.slotWrapper wrapper))

theorem placed_of_wrapSlot {wrapper : Text} (named : slot.wrapperName? = some wrapper)
    (wrapped : composer.wrapSlot slot wrapper bound = .ok text) :
    Placed composer slot bound text := by
  unfold wrapSlot at wrapped
  dsimp only at wrapped
  split at wrapped
  · rename_i failure lacking
    split at wrapped
    · rename_i lost
      cases wrapped
      refine .unresolved named lost ?_
      rcases bind_eq_error_iff.mp lacking with unlocated | ⟨path, located, continued⟩
      · exact Or.inl unlocated
      · rcases bind_eq_error_iff.mp continued with unread | ⟨_, _, impossible⟩
        · exact Or.inr ⟨path, located, unread⟩
        · cases impossible
    · cases wrapped
  · rename_i path contents loaded
    rcases bind_eq_ok_iff.mp loaded with ⟨place, located, continued⟩
    rcases bind_eq_ok_iff.mp continued with ⟨stored, read, equal⟩
    cases equal
    rcases bind_eq_ok_iff.mp wrapped with ⟨main, found, result⟩
    cases result
    rcases exists_mainSlot found with ⟨before, after, inside⟩
    rw [inside.replaceIn]
    exact .wrapped named located read inside

theorem wrapSlot_of_placed {wrapper : Text} (named : slot.wrapperName? = some wrapper)
    (placed : Placed composer slot bound text) :
    composer.wrapSlot slot wrapper bound = .ok text := by
  cases placed with
  | bare unwrapped =>
      rw [named] at unwrapped
      cases unwrapped
  | wrapped again located read inside =>
      rw [named] at again
      cases again
      unfold wrapSlot
      unfold Placeholder.slotWrapper at located
      dsimp only
      rw [located]
      dsimp only [bind, Except.bind]
      rw [read]
      dsimp only [pure, Except.pure]
      rw [findMainSlot_of_mainSlot inside]
      exact congrArg Except.ok (inside.replaceIn bound)
  | unresolved again lost missing =>
      rw [named] at again
      cases again
      exact wrapSlot_of_missing lost missing bound

theorem eq_of_placed_bare (unwrapped : slot.wrapperName? = none)
    (placed : Placed composer slot bound text) : text = bound := by
  cases placed with
  | bare _ => rfl
  | wrapped named _ _ _ =>
      rw [unwrapped] at named
      cases named
  | unresolved named _ _ =>
      rw [unwrapped] at named
      cases named

/-- A slot is filled with the markup of its value. -/
theorem slotText_eq_ok_iff :
    composer.slotText slot value? = .ok text ↔
      ∃ bound, ValueMarkup composer value? bound ∧ Placed composer slot bound text := by
  constructor
  · intro filled
    rcases exists_bound_of_slotText filled with ⟨bound, received, put⟩
    refine ⟨bound, received_iff_valueMarkup.mp received, ?_⟩
    rcases put with ⟨unwrapped, equal⟩ | ⟨wrapper, named, wrapped⟩
    · rw [equal]
      exact .bare unwrapped
    · exact placed_of_wrapSlot named wrapped
  · rintro ⟨bound, markup, placed⟩
    refine bind_eq_ok_iff.mpr ⟨bound, received_iff_valueMarkup.mpr markup, ?_⟩
    cases named : slot.wrapperName? with
    | none => exact congrArg Except.ok (eq_of_placed_bare named placed).symm
    | some wrapper => exact wrapSlot_of_placed named placed

/-- A slot whose value has a part without markup is not filled. -/
theorem slotText_of_firstUntyped {value part : Text} (first : FirstUntyped composer value part) :
    composer.slotText slot (some value) = .error (.missingTypePrefix (reportedPart value part)) :=
  bind_eq_error_iff.mpr (Or.inl (bindValues_of_firstUntyped first))

/-! ## All slots at once -/

section AllSlots

variable {mode : BindingMode} {args : List Text} {slots : List Placeholder}

/-- Arguments matter only for the values that slots receive from them. -/
theorem fillSlots_congr {others : List Text}
    (same : ∀ slot index, boundValue? mode others slot index = boundValue? mode args slot index)
    (backwards : List (Placeholder × Nat)) (body : Text) :
    composer.fillSlots mode others backwards body =
      composer.fillSlots mode args backwards body := by
  induction backwards generalizing body with
  | nil => rfl
  | cons last others inductionHypothesis =>
      rw [fillSlots, fillSlots, same]
      simp only [inductionHypothesis]

/-- Whether filling fails does not depend on the text that is filled. -/
theorem fillSlots_eq_error_iff {backwards : List (Placeholder × Nat)} {body : Text}
    {failure : Failure} :
    composer.fillSlots mode args backwards body = .error failure ↔
      (backwards.mapM fun slot => composer.slotText slot.1 (boundValue? mode args slot.1 slot.2)) =
        .error failure := by
  induction backwards generalizing body with
  | nil => simp [fillSlots, pure, Except.pure]
  | cons last others inductionHypothesis =>
      rw [List.mapM_cons, bind_eq_error_iff, fillSlots, bind_eq_error_iff]
      refine or_congr Iff.rfl (exists_congr fun replacement => and_congr Iff.rfl ?_)
      rw [inductionHypothesis, bind_eq_error_iff]
      simp [pure, Except.pure]

/-- Filling from the back replaces all slots at once.  What stands behind the
slots still to come is finished, and none of it is looked at again. -/
theorem fillSlots_of_texts {backwards : List (Placeholder × Nat)} {front : Text}
    {texts : List Text} (laid : Laid 0 (backwards.map Prod.fst).reverse front)
    (each : List.Forall₂ (fun slot text =>
      composer.slotText slot.1 (boundValue? mode args slot.1 slot.2) = .ok text) backwards texts)
    (finished : Text) :
    composer.fillSlots mode args backwards (front ++ finished) =
      .ok (substitute ((backwards.map Prod.fst).zip texts).reverse front ++ finished) := by
  induction each generalizing front finished with
  | nil => rfl
  | @cons last replacement others texts filled behind inductionHypothesis =>
      rw [List.map_cons, List.reverse_cons] at laid
      rcases laid.split with ⟨before, after, joined, starts, stops, former, _⟩
      have paired : ((others.map Prod.fst).zip texts).reverse.map Prod.fst =
          (others.map Prod.fst).reverse := by
        rw [List.map_reverse, List.map_fst_zip]
        rw [List.length_map]
        exact Nat.le_of_eq behind.length_eq
      have whole : substitute (((last :: others).map Prod.fst).zip (replacement :: texts)).reverse
          front = substitute ((others.map Prod.fst).zip texts).reverse before ++
            (replacement ++ after) := by
        rw [List.map_cons, List.zip_cons_cons, List.reverse_cons, joined]
        unfold substitute
        rw [substituteFrom_append (paired ▸ former) starts stops replacement [], substituteFrom,
          List.append_assoc]
      have replaced : last.1.replaceIn (front ++ finished) replacement =
          before ++ (replacement ++ after ++ finished) := by
        rw [Nat.zero_add] at starts
        rw [joined, List.append_assoc, Placeholder.replaceIn_append starts (starts ▸ stops)]
        simp only [List.append_assoc]
      rw [fillSlots, filled]
      dsimp only [bind, Except.bind]
      rw [replaced, inductionHypothesis former, whole]
      simp only [List.append_assoc]

/-- Slots and their values, from the last slot to the first. -/
theorem map_zipIdx_slots :
    (slots.reverse.zipIdx.map fun slot => (slot.1, boundValue? mode args slot.1 slot.2)) =
      (slots.zip (slotValues mode args slots)).reverse := by
  have values : (slotValues mode args slots).reverse =
      slots.reverse.zipIdx.map fun slot => boundValue? mode args slot.1 slot.2 := by
    rw [slotValues, List.reverse_reverse]
  rw [List.zip_eq_zipWith, List.reverse_zipWith (length_slotValues mode args slots).symm,
    ← List.zip_eq_zipWith, values]
  have pairs := @List.zip_map' _ _ _ Prod.fst
    (fun slot => boundValue? mode args slot.1 slot.2) slots.reverse.zipIdx
  rw [List.zipIdx_map_fst] at pairs
  exact pairs.symm

theorem mapM_zipIdx_slots :
    (slots.reverse.zipIdx.mapM fun slot =>
        composer.slotText slot.1 (boundValue? mode args slot.1 slot.2)) =
      (slots.zip (slotValues mode args slots)).reverse.mapM fun slot =>
        composer.slotText slot.1 slot.2 := by
  rw [← map_zipIdx_slots, List.mapM_map]
  rfl

/-- A slot with its value, and what stands in its place. -/
def Filled (composer : Composer) (slot : Placeholder × Option Text) (text : Text) : Prop :=
  ∃ bound, ValueMarkup composer slot.2 bound ∧ Placed composer slot.1 bound text

theorem fillSlots_eq_ok_iff {layout body : Text} (laid : Laid 0 slots layout) :
    composer.fillSlots mode args slots.reverse.zipIdx layout = .ok body ↔
      ∃ texts, List.Forall₂ (Filled composer) (slots.zip (slotValues mode args slots)) texts ∧
        body = substitute (slots.zip texts) layout := by
  have placed : (slots.reverse.zipIdx.map Prod.fst).reverse = slots := by
    rw [List.zipIdx_map_fst, List.reverse_reverse]
  have found (texts : List Text) :
      List.Forall₂ (Filled composer) (slots.zip (slotValues mode args slots)) texts ↔
        (slots.reverse.zipIdx.mapM fun slot =>
          composer.slotText slot.1 (boundValue? mode args slot.1 slot.2)) = .ok texts.reverse := by
    rw [mapM_zipIdx_slots, mapM_reverse_eq_ok_iff, List.reverse_reverse, mapM_eq_ok_iff_forall₂]
    simp only [slotText_eq_ok_iff]
    rfl
  have result {texts : List Text}
      (each : List.Forall₂ (Filled composer) (slots.zip (slotValues mode args slots)) texts) :
      composer.fillSlots mode args slots.reverse.zipIdx layout =
        .ok (substitute (slots.zip texts) layout) := by
    have sizes : slots.length = texts.length := by
      rw [← each.length_eq, List.length_zip, length_slotValues, Nat.min_self]
    have backwards := mapM_eq_ok_iff_forall₂.mp ((found texts).mp each)
    have filled := fillSlots_of_texts (placed.symm ▸ laid) backwards []
    rw [List.append_nil, List.append_nil, List.zipIdx_map_fst, List.zip_eq_zipWith,
      List.reverse_zipWith (by simpa using sizes), List.reverse_reverse, List.reverse_reverse,
      ← List.zip_eq_zipWith] at filled
    exact filled
  constructor
  · intro finished
    cases outcome : (slots.reverse.zipIdx.mapM fun slot =>
        composer.slotText slot.1 (boundValue? mode args slot.1 slot.2)) with
    | error failure =>
        rw [fillSlots_eq_error_iff.mpr outcome] at finished
        cases finished
    | ok texts =>
        have each := (found texts.reverse).mpr (by rw [outcome, List.reverse_reverse])
        refine ⟨texts.reverse, each, ?_⟩
        rw [result each] at finished
        exact (Except.ok.inj finished).symm
  · rintro ⟨texts, each, equal⟩
    rw [equal]
    exact result each

/-- The last slot that cannot be filled says how filling fails. -/
theorem fillSlots_of_error {layout : Text} {failure : Failure}
    {former later : List (Placeholder × Option Text)} {slot : Placeholder × Option Text}
    (split : slots.zip (slotValues mode args slots) = former ++ slot :: later)
    (filled : ∀ other ∈ later, ∃ text, Filled composer other text)
    (failed : composer.slotText slot.1 slot.2 = .error failure) :
    composer.fillSlots mode args slots.reverse.zipIdx layout = .error failure := by
  rw [fillSlots_eq_error_iff, mapM_zipIdx_slots, mapM_eq_error_iff, split]
  refine ⟨later.reverse, slot, former.reverse, by simp, ?_, failed⟩
  intro other member
  rcases filled other (List.mem_reverse.mp member) with ⟨text, done⟩
  exact ⟨text, slotText_eq_ok_iff.mpr done⟩

end AllSlots

/-! ## Layouts that are found and can be read -/

/-- The layout that a tag refers to, with its slots. -/
structure LayoutRead (composer : Composer) (tag : Placeholder) (path : Path) (contents : Text)
    (slots : List Placeholder) : Prop where
  located : composer.site.locate tag = .ok path
  read : readFragment composer.site path = .ok contents
  scanned : scanKind composer.site path .content (Text.trim contents) = .ok slots

section Layouts

variable {tag : Placeholder} {path : Path} {contents : Text} {slots : List Placeholder}
  {mode : BindingMode}

theorem LayoutRead.layoutText_eq (layout : LayoutRead composer tag path contents slots) :
    composer.layoutText tag = (do
      let mode <- BindingMode.detect tag.tag tag.args.reverse
      let body <- composer.fillSlots mode tag.args slots.reverse.zipIdx (Text.trim contents)
      return Text.trim body) := by
  unfold layoutText
  rw [layout.located]
  dsimp only [bind, Except.bind]
  rw [layout.read]
  dsimp only [pure, Except.pure]
  unfold fillLayout
  rw [layout.scanned]
  rfl

theorem layoutText_of_mixed (layout : LayoutRead composer tag path contents slots)
    (mixed : Mixed tag.args) :
    composer.layoutText tag = .error (.mixedArguments tag.tag) := by
  rw [layout.layoutText_eq, detect_of_mixed tag.tag mixed]
  rfl

theorem layoutText_eq_ok_iff (layout : LayoutRead composer tag path contents slots)
    (detected : BindingMode.detect tag.tag tag.args.reverse = .ok mode) {body : Text} :
    composer.layoutText tag = .ok body ↔
      ∃ texts, List.Forall₂ (Filled composer) (slots.zip (slotValues mode tag.args slots)) texts ∧
        body = Text.trim (substitute (slots.zip texts) (Text.trim contents)) := by
  have filled (result : Text) :=
    @fillSlots_eq_ok_iff composer mode tag.args _ _ result (scanKindFrom_laid layout.scanned)
  rw [layout.layoutText_eq, detected]
  change (composer.fillSlots mode tag.args slots.reverse.zipIdx (Text.trim contents) >>= _) = _ ↔ _
  rw [bind_eq_ok_iff]
  constructor
  · rintro ⟨result, done, trimmed⟩
    cases trimmed
    rcases (filled result).mp done with ⟨texts, each, equal⟩
    exact ⟨texts, each, by rw [equal]⟩
  · rintro ⟨texts, each, equal⟩
    exact ⟨_, (filled _).mpr ⟨texts, each, rfl⟩, by rw [equal]; rfl⟩

theorem layoutText_of_firstUntyped (layout : LayoutRead composer tag path contents slots)
    (detected : BindingMode.detect tag.tag tag.args.reverse = .ok mode) {value part : Text}
    {former later : List (Placeholder × Option Text)} {slot : Placeholder}
    (split : slots.zip (slotValues mode tag.args slots) = former ++ (slot, some value) :: later)
    (filled : ∀ other ∈ later, ∃ text, Filled composer other text)
    (first : FirstUntyped composer value part) :
    composer.layoutText tag = .error (.missingTypePrefix (reportedPart value part)) := by
  rw [layout.layoutText_eq, detected]
  change (composer.fillSlots mode tag.args slots.reverse.zipIdx (Text.trim contents) >>= _) = _
  rw [fillSlots_of_error split filled (slotText_of_firstUntyped first)]
  rfl

end Layouts
end Composer
end PageComposer
