import PageComposer.Proofs.Fragment.Missing
import PageComposer.Proofs.Run.Failing

namespace PageComposer

/-!
# A missing fragment does not stop a composition

Every place of a composition that looks a file up or reads one has an answer to a
file that is not there.  Fragments, layouts and wrappers leave a block, and only a
linked resource ends the composition, with a failure of its own.
-/

namespace Composer

variable {composer : Composer}

/-! ## Nothing passes a missing file on -/

section Degrading

theorem degrading_ensureDisjoint (template : Path) (placeholders : List Placeholder) :
    Degrading (ensureDisjoint template placeholders) := by
  intro failure refused
  rcases exists_neighbours_of_ensureDisjoint refused with ⟨_, _, _, _, _, _, equal⟩
  rw [equal]
  rfl

theorem degrading_run (template : Path) (options : Options) (document : Text)
    (placeholders : List Placeholder) (includes : Includes) :
    Degrading (composer.run template options document placeholders includes) :=
  run_failsIn (causes_isResolution_eq_false composer.site)
    (degrading_ensureDisjoint template _) options document includes

theorem degrading_scan (document : Path) (text : Text) :
    Degrading (composer.scan document text) :=
  (scan_failsIn _ _).mono (causes_isResolution_eq_false composer.site).markup

theorem degrading_runWithin (template : Path) (options : Options) (remaining runs : Nat)
    (document : Text) (includes : Includes) :
    Degrading (composer.runWithin template options remaining runs document includes) := by
  induction remaining generalizing runs document includes with
  | zero =>
      unfold runWithin
      refine FailsIn.bind (degrading_scan _ _) fun placeholders _ => ?_
      cases placeholders <;> exact FailsIn.ok _
  | succ fewer inductionHypothesis =>
      unfold runWithin
      refine FailsIn.bind (degrading_scan _ _) fun placeholders _ => ?_
      cases placeholders with
      | nil => exact FailsIn.ok _
      | cons first others =>
          exact FailsIn.bind (degrading_run _ _ _ _ _) fun _ _ => inductionHypothesis _ _ _

theorem degrading_composeWith (template : Path) (text : Text) (options : Options) :
    Degrading (composer.composeWith template text options) := by
  unfold composeWith
  split
  · exact degrading_runWithin _ _ _ _ _ _
  · exact FailsIn.error rfl

end Degrading

/-! ## What stands in for a missing file -/

section Missing

variable {placeholder : Placeholder} {failure : Failure} (lost : failure.isResolution = true)

include lost

theorem fileText_of_missing (missed : composer.site.Misses placeholder failure) :
    composer.fileText placeholder = .ok (unprocessedBlock placeholder) := by
  have loaded : composer.site.locate placeholder >>= readFragment composer.site =
      .error failure := by
    apply bind_eq_error_iff.mpr
    rcases missed with unlocated | ⟨path, located, unread⟩
    · exact Or.inl unlocated
    · exact Or.inr ⟨path, located, readFragmentWithin_of_unread unread _ _⟩
  unfold fileText
  rw [loaded]
  exact if_pos lost

theorem layoutText_of_missing (missed : composer.site.Misses placeholder failure) :
    composer.layoutText placeholder = .ok (unprocessedLayout placeholder) := by
  unfold layoutText
  rcases missed with unlocated | ⟨path, located, unread⟩
  · rw [unlocated]
    exact if_pos lost
  · rw [located]
    dsimp only [bind, Except.bind]
    rw [readFragment, readFragmentWithin_of_unread unread]
    exact if_pos lost

theorem applyWrap_of_missing (missed : composer.site.Misses placeholder failure)
    (document : Text) :
    applyWrap composer.site placeholder document = .ok (unresolvedWrap placeholder document) := by
  unfold applyWrap applyWrapWith
  rcases missed with unlocated | ⟨path, located, unread⟩
  · rw [unlocated]
    exact if_pos lost
  · rw [located]
    dsimp only
    rw [readFragmentWithin_of_unread unread]
    exact if_pos lost

theorem wrapSlot_of_missing {slot : Placeholder} {wrapper : Text}
    (missed : composer.site.Misses (slot.slotWrapper wrapper) failure) (bound : Text) :
    composer.wrapSlot slot wrapper bound =
      .ok (unprocessedBlock (slot.slotWrapper wrapper)) := by
  unfold wrapSlot
  unfold Placeholder.slotWrapper at missed ⊢
  dsimp only
  rcases missed with unlocated | ⟨path, located, unread⟩
  · rw [unlocated]
    exact if_pos lost
  · rw [located]
    dsimp only [bind, Except.bind]
    rw [unread]
    exact if_pos lost

theorem linkedAddress_of_unlocated (template : Path) (named : placeholder.name ≠ "default".toList)
    (unlocated : composer.site.locate placeholder = .error failure) :
    composer.linkedAddress template placeholder =
      .error (.missingResource placeholder.kind template placeholder.name) := by
  unfold linkedAddress
  dsimp only
  rw [if_neg named, unlocated]
  dsimp only
  rw [if_pos lost]
  rfl

end Missing

/-- The resource that a link registers, if it is there. -/
def LinksTo (composer : Composer) (template : Path) (placeholder : Placeholder)
    (resource : Path) : Prop :=
  if placeholder.name = "default".toList then
    resource = defaultResource template placeholder.kind.extension
  else composer.site.locate placeholder = .ok resource

theorem linkedAddress_of_absent {template resource : Path} {placeholder : Placeholder}
    (links : composer.LinksTo template placeholder resource)
    (absent : composer.site.holds resource = false) :
    composer.linkedAddress template placeholder =
      .error (.missingResource placeholder.kind template resource.text) := by
  have without : ¬ composer.site.holds resource = true := Bool.eq_false_iff.mp absent
  unfold LinksTo at links
  unfold linkedAddress
  dsimp only
  split at links
  · rename_i isDefault
    rw [if_pos isDefault, ← links]
    exact if_neg without
  · rename_i named
    rw [if_neg named, links]
    exact if_neg without

/-- A composition never ends with a file that cannot be found or read.  A tag of a
missing fragment or layout, the wrap of a page or of a fragment at any depth, and a
slot with a missing wrapper are replaced by a block; a link to a missing resource
ends the composition with the failure that says so. -/
theorem composeWith_degrades (resolving : composer.site.Resolving)
    (bounded : composer.site.Bounded) (template : Path) (text : Text) (options : Options) :
    (∀ failure, composer.composeWith template text options = .error failure ->
      failure.isResolution = false) ∧
    (∀ placeholder failure state, composer.site.Misses placeholder failure ->
      (placeholder.kind = .file ->
        composer.step template options state placeholder = .ok (state.put placeholder
          (placeholder.region options.markRegions (unprocessedBlock placeholder)))) ∧
      (placeholder.kind = .layout ->
        composer.step template options state placeholder = .ok (state.put placeholder
          (placeholder.region options.markRegions (unprocessedLayout placeholder))))) ∧
    (∀ wrap failure document, composer.site.Misses wrap failure ->
      applyWrap composer.site wrap document =
        .ok (wrap.replaceIn document (unprocessedBlock wrap))) ∧
    (∀ depth wrapping path raw wrap others failure, Reading composer.site wrapping path ->
      composer.site.fileCount ≤ depth + wrapping.length ->
      composer.site.read path = .ok raw ->
      scanKind composer.site path .wrap (prepareEditable composer.site path raw) =
        .ok (wrap :: others) ->
      composer.site.Misses wrap failure ->
      (∀ wrapper, composer.site.locate wrap = .ok wrapper ->
        wrapping.any wrapper.same = false) ->
      readFragmentWithin composer.site depth wrapping path =
        .ok (resolveLinks composer.site path
          (wrap.replaceIn (prepareEditable composer.site path raw) (unprocessedBlock wrap)))) ∧
    (∀ slot wrapper bound failure, composer.site.Misses (slot.slotWrapper wrapper) failure ->
      composer.wrapSlot slot wrapper bound =
        .ok (unprocessedBlock (slot.slotWrapper wrapper))) ∧
    (∀ placeholder state, placeholder.kind = .linkCss ∨ placeholder.kind = .linkScript ->
      (∀ failure, placeholder.name ≠ "default".toList ->
        composer.site.locate placeholder = .error failure ->
        composer.step template options state placeholder =
          .error (.missingResource placeholder.kind template placeholder.name)) ∧
      (∀ resource, composer.LinksTo template placeholder resource ->
        composer.site.holds resource = false ->
        composer.step template options state placeholder =
          .error (.missingResource placeholder.kind template resource.text))) := by
  refine ⟨degrading_composeWith template text options, ?_, ?_, ?_, ?_, ?_⟩
  · intro placeholder failure state missed
    have lost := resolving.isResolution missed
    constructor
    · intro isFile
      unfold step
      rw [isFile]
      dsimp only
      rw [fileText_of_missing lost missed]
      rfl
    · intro isLayout
      unfold step
      rw [isLayout]
      dsimp only
      rw [layoutText_of_missing lost missed]
      rfl
  · intro wrap failure document missed
    exact applyWrap_of_missing (resolving.isResolution missed) missed document
  · intro depth wrapping path raw wrap others failure reading enough read scanned missed fresh
    exact readFragmentWithin_of_missing resolving bounded reading enough read scanned missed fresh
  · intro slot wrapper bound failure missed
    exact wrapSlot_of_missing (resolving.isResolution missed) missed bound
  · intro placeholder state isLink
    have stepped {failure : Failure}
        (failed : composer.linkedAddress template placeholder = .error failure) :
        composer.step template options state placeholder = .error failure := by
      unfold step
      rcases isLink with isStyle | isScript
      · rw [isStyle]
        dsimp only
        rw [failed]
        rfl
      · rw [isScript]
        dsimp only
        rw [failed]
        rfl
    constructor
    · intro failure named unlocated
      have lost := resolving.locate placeholder failure unlocated
      exact stepped (linkedAddress_of_unlocated lost template named unlocated)
    · intro resource links absent
      exact stepped (linkedAddress_of_absent links absent)

/-- A part whose wrapper asks for a wrapper that is not there. -/
def unframedSite : Listing :=
  ⟨[(⟨"/site/part.html".toList⟩, "<!-- wrap:/frame -->x".toList),
    (⟨"/site/frame.html".toList⟩, "<p><!-- wrap:/gone --><!-- content:main --></p>".toList)]⟩

def unframedComposer : Composer where
  site := unframedSite.toSite (.atRoot ⟨"/site".toList⟩)

/-- The wrap of the part. -/
def frameWrap : Placeholder where
  name := "/frame".toList
  kind := .wrap
  start := 0
  stop := 20
  tag := "<!-- wrap:/frame -->".toList
  args := []
  style := .none
  document := ⟨"/site/part.html".toList⟩

/-- The wrap of the wrapper. -/
def unframedWrap : Placeholder where
  name := "/gone".toList
  kind := .wrap
  start := 3
  stop := 22
  tag := "<!-- wrap:/gone -->".toList
  args := []
  style := .none
  document := ⟨"/site/frame.html".toList⟩

set_option maxRecDepth 100000 in
/-- The wrapper that is not there leaves its block inside of the wrapper that asks
for it, and a page with a stylesheet that is not there has its own failure. -/
theorem composeWith_degrades_inside_wrapper :
    Reading unframedComposer.site [⟨"/site/frame.html".toList⟩] ⟨"/site/frame.html".toList⟩ ∧
      readFragmentWithin unframedComposer.site 1 [⟨"/site/frame.html".toList⟩]
          ⟨"/site/frame.html".toList⟩ =
        .ok ("<p><div style=\"background-color: #f08080\">Could not process wrap:/gone".toList ++
          "</div><!-- content:main --></p>".toList) ∧
      unframedComposer.composeWith ⟨"/site/index.html".toList⟩ "<!-- linkCss:/gone -->".toList {} =
        .error (.missingResource .linkCss ⟨"/site/index.html".toList⟩ "/gone".toList) ∧
      (Failure.missingResource .linkCss ⟨"/site/index.html".toList⟩ "/gone".toList).isResolution =
        false := by
  have resolving : unframedComposer.site.Resolving := Listing.toSite_resolving _ _
  have bounded : unframedComposer.site.Bounded := Listing.toSite_bounded _ _
  have ended : unframedComposer.composeWith ⟨"/site/index.html".toList⟩
      "<!-- linkCss:/gone -->".toList {} =
      .error (.missingResource .linkCss ⟨"/site/index.html".toList⟩ "/gone".toList) := by
    decide +kernel
  have entered : Reading unframedComposer.site [⟨"/site/frame.html".toList⟩]
      ⟨"/site/frame.html".toList⟩ := by
    have read : unframedComposer.site.read ⟨"/site/part.html".toList⟩ =
        .ok "<!-- wrap:/frame -->x".toList := by decide +kernel
    have scanned : scanKind unframedComposer.site ⟨"/site/part.html".toList⟩ .wrap
        (prepareEditable unframedComposer.site ⟨"/site/part.html".toList⟩
          "<!-- wrap:/frame -->x".toList) = .ok [frameWrap] := by decide +kernel
    have located : unframedComposer.site.locate frameWrap = .ok ⟨"/site/frame.html".toList⟩ := by
      decide +kernel
    exact .wrapper (.fragment _) read scanned located rfl
  rcases composeWith_degrades resolving bounded ⟨"/site/index.html".toList⟩
    "<!-- linkCss:/gone -->".toList {} with ⟨severe, _, _, nested, _⟩
  have unlocated : unframedComposer.site.locate unframedWrap =
      .error (.unresolved .wrap "/gone".toList "no file at `/site/gone.html`".toList) := by
    decide +kernel
  have blocked := nested 1 _ _ "<p><!-- wrap:/gone --><!-- content:main --></p>".toList
    unframedWrap [] _ entered (by decide) (by decide +kernel) (by decide +kernel)
    (Or.inl unlocated) (by simp [unlocated])
  refine ⟨entered, blocked.trans ?_, ended, severe _ ended⟩
  decide +kernel

end Composer
end PageComposer
