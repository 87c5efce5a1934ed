import PageComposer.Proofs.Decompile.Balance
import PageComposer.Proofs.Run.Pieces

namespace PageComposer

/-!
# Decompiling restores a template

After the first run of a marked composition every tag of the template is a
region, and nothing outside of the regions is a tag any more.  Later runs only
change the insides of regions, and leave them balanced, wherever the run limit
cuts them off (`runWithin_regions`).  Decompiling then puts back the tag that
each region stands for.
-/

/-- A tag as it is written from its placeholder. -/
def Placeholder.canonicalTag (placeholder : Placeholder) : Text :=
  placeholder.kind.opening ++ (placeholder.name ++ placeholder.argsSuffix) ++ tagClose

/-- The tags of a document, each with the way it is written from its
placeholder. -/
def canonicalSpans (placeholders : List Placeholder) : List (Placeholder × Text) :=
  placeholders.map fun placeholder => (placeholder, placeholder.canonicalTag)

theorem canonicalSpans_placeholders (placeholders : List Placeholder) :
    (canonicalSpans placeholders).map Prod.fst = placeholders := by
  unfold canonicalSpans
  rw [List.map_map]
  exact List.map_id placeholders

theorem Placeholder.definition_eq (placeholder : Placeholder) :
    placeholder.definition =
      placeholder.kind.name ++ '-' :: (placeholder.name ++ placeholder.argsSuffix) := by
  simp [definition]

theorem ledPieces_eq (lead : Lead) {rest : Text} (tidy : Tidy rest) :
    ledPieces lead rest = [.led lead rest tidy] :=
  dif_pos tidy

/-- The region of a placeholder between the comments with its definition. -/
theorem enclosed_eq {placeholder : Placeholder}
    (tidy : TidyParts placeholder.name placeholder.args) (inner : List Piece) :
    ∃ tidy : Tidy (placeholder.kind.name ++ '-' :: (placeholder.name ++ placeholder.argsSuffix)),
      placeholder.enclosed inner = .led .begins _ tidy :: inner ++ [.led .ends _ tidy] := by
  have definition := tidy_definition tidy
  rw [placeholder.definition_eq] at definition
  refine ⟨definition, ?_⟩
  unfold Placeholder.enclosed
  rw [placeholder.definition_eq, ledPieces_eq _ definition, ledPieces_eq _ definition]
  rfl

theorem balanced_shownPieces {options : Options} {placeholder : Placeholder}
    {resolution : Resolution} (tidy : TidyParts placeholder.name placeholder.args)
    (sound : Sound resolution.text) :
    Balanced (resolution.shownPieces options placeholder) := by
  have inside : Balanced (piecesOf resolution.text) := balanced_of_unmarked sound.piecesOf.1
  unfold Resolution.shownPieces
  split
  all_goals first | exact inside | skip
  all_goals
    rcases enclosed_eq tidy (piecesOf resolution.text) with ⟨definition, equal⟩
    rw [equal]
    exact .region definition inside .nil

section Restoring

variable {listing : Listing} {addressing : Addressing} {composer : Composer} {template : Path}
  {options : Options}

theorem balanced_turned (setting : CleanSetting listing addressing composer template)
    {piece : Piece} (unmarked : piece.isRegionComment = false) :
    Balanced (piece.turned composer template options) := by
  rcases turned_cases setting piece with
    stays | ⟨_, vanishes | ⟨placeholder, resolution, tidy, sound, turned⟩⟩
  · rw [stays]
    exact .piece unmarked .nil
  · rw [vanishes]
    exact .nil
  · rw [turned]
    exact balanced_shownPieces tidy sound

theorem Balanced.turned (setting : CleanSetting listing addressing composer template)
    {pieces : List Piece} (balanced : Balanced pieces) :
    Balanced (pieces.flatMap (Piece.turned composer template options)) := by
  induction balanced with
  | nil => exact .nil
  | piece unmarked _ inductionHypothesis =>
      rw [List.flatMap_cons]
      exact (balanced_turned setting unmarked).append inductionHypothesis
  | region tidy _ _ insideHypothesis behindHypothesis =>
      rw [List.cons_append, List.flatMap_cons, List.flatMap_append, List.flatMap_cons,
        turned_of_not_tagged rfl, turned_of_not_tagged rfl]
      exact .region tidy insideHypothesis behindHypothesis

/-- A run changes only the insides of regions. -/
theorem Regions.turned (setting : CleanSetting listing addressing composer template)
    {pieces : List Piece} {text : Text} (regions : Regions composer.kinds pieces text) :
    Regions composer.kinds (pieces.flatMap (Piece.turned composer template options)) text := by
  induction regions with
  | nil => exact .nil
  | keep other unmarked _ inductionHypothesis =>
      rw [List.flatMap_cons, turned_of_not_tagged other]
      exact .keep other unmarked inductionHypothesis
  | region tidy inside _ inductionHypothesis =>
      rw [List.cons_append, List.flatMap_cons, List.flatMap_append, List.flatMap_cons,
        turned_of_not_tagged rfl, turned_of_not_tagged rfl]
      exact .region tidy (inside.turned setting) inductionHypothesis

/-- The first run makes every tag a region that stands for it. -/
theorem Reads.regions (setting : CleanSetting listing addressing composer template)
    (marks : options.markRegions = true) {offset : Nat} {pieces : List Piece}
    {placeholders : List Placeholder}
    (reads : Reads composer.site template composer.kinds offset pieces placeholders)
    (unmarked : Unmarked pieces)
    (resolves : ∀ placeholder ∈ placeholders, ∃ resolution,
      composer.resolve template placeholder = .ok resolution)
    (regional : ∀ placeholder ∈ placeholders,
      placeholder.kind = .file ∨ placeholder.kind = .layout) :
    Regions composer.kinds (pieces.flatMap (Piece.turned composer template options))
      (PageComposer.substituteFrom offset (canonicalSpans placeholders) (spell pieces)) := by
  induction reads with
  | nil => exact .nil
  | @skip offset piece rest placeholders other behind inductionHypothesis =>
      rcases List.forall_mem_cons.mp unmarked with ⟨here, later⟩
      have laid : Laid (offset + Text.byteSize piece.text)
          ((canonicalSpans placeholders).map Prod.fst) (spell rest) := by
        rw [canonicalSpans_placeholders]
        exact behind.laid
      rw [List.flatMap_cons, turned_of_not_tagged other, spell_cons, substituteFrom_prepend laid]
      exact .keep other here (inductionHypothesis later resolves regional)
  | @read offset piece rest kind raw placeholder placeholders tagged accepted behind
      inductionHypothesis =>
      rw [List.forall_mem_cons] at resolves regional
      have later := inductionHypothesis (List.forall_mem_cons.mp unmarked).2 resolves.2 regional.2
      rcases resolves.1 with ⟨resolution, resolved⟩
      rcases stop_eq tagged accepted with ⟨stops, starts, tag⟩
      have kindEqual := readTag_kind accepted
      have notWrap : kind ≠ .wrap := by
        intro isWrap
        rw [kindEqual, isWrap] at regional
        rcases regional.1 with impossible | impossible <;> cases impossible
      rcases setting.sound_tag tagged accepted notWrap resolved with ⟨tidy, sound⟩
      have marked : resolution.shownPieces options placeholder =
          placeholder.enclosed (piecesOf resolution.text) := by
        unfold Resolution.shownPieces
        rcases regional.1 with isFile | isLayout
        · rw [isFile, marks]
        · rw [isLayout, marks]
      have around : piece.text ++ spell rest = [] ++ placeholder.tag ++ spell rest := by
        rw [tag, List.nil_append]
      have spans : canonicalSpans (placeholder :: placeholders) =
          (placeholder, placeholder.canonicalTag) :: canonicalSpans placeholders := rfl
      rcases enclosed_eq tidy (piecesOf resolution.text) with ⟨definition, enclosed⟩
      rw [List.flatMap_cons, turned_of_read setting.sited tagged accepted notWrap resolved, marked,
        enclosed, spell_cons, around, spans,
        substituteFrom_cons starts (by rw [stops, starts, tag]), List.nil_append,
        List.append_assoc]
      exact .region definition (balanced_of_unmarked sound.piecesOf.1) later

/-- Wherever the runs end, the regions of the template are still there. -/
theorem runWithin_regions (setting : CleanSetting listing addressing composer template)
    (wrapless : Kind.wrap ∉ composer.kinds) {remaining runs : Nat} {pieces : List Piece}
    {text : Text} {includes : Includes} {composition : Composition}
    (regions : Regions composer.kinds pieces text)
    (composed : composer.runWithin template options remaining runs (spell pieces) includes =
      .ok composition) :
    ∃ after, Regions composer.kinds after text ∧ composition.content = spell after := by
  induction remaining generalizing runs pieces includes with
  | zero =>
      rcases Composer.exists_scan_of_runWithin composed with ⟨placeholders, scanned⟩
      cases placeholders with
      | nil =>
          rw [Composer.runWithin_of_no_tag scanned] at composed
          cases composed
          exact ⟨pieces, regions, rfl⟩
      | cons first others =>
          rw [Composer.runWithin_zero_of_tags scanned] at composed
          cases composed
          exact ⟨pieces, regions, rfl⟩
  | succ remaining inductionHypothesis =>
      rcases Composer.exists_scan_of_runWithin composed with ⟨placeholders, scanned⟩
      cases placeholders with
      | nil =>
          rw [Composer.runWithin_of_no_tag scanned] at composed
          cases composed
          exact ⟨pieces, regions, rfl⟩
      | cons first others =>
          rw [Composer.runWithin_succ_of_tags scanned] at composed
          rcases bind_eq_ok_iff.mp composed with ⟨⟨document, registered⟩, finished, rest⟩
          rcases run_spell setting wrapless
            ((scan_spell_iff setting.distinct).mp scanned) finished with ⟨_, turned⟩
          subst turned
          exact inductionHypothesis (regions.turned setting) rest

/-- Over a clean site in which no wrap closes a relative link up, decompiling a
marked composition of a template whose tags are files and layouts gives the
template back, with every tag written from its placeholder. -/
theorem decompile_composeWith (clean : CleanSite listing addressing)
    (linkless : NoForgedLink (listing.toSite addressing)) {kinds : List Kind}
    (distinct : kinds.Nodup) (wrapless : Kind.wrap ∉ kinds) {template : Path}
    (plainly : Plainly template.text) {text : Text} (cleanText : Clean text) {maxRuns : Nat}
    (positive : 1 ≤ maxRuns) {placeholders : List Placeholder} {composition : Composition} :
    let composer : Composer := { site := listing.toSite addressing, kinds := kinds }
    composer.scan template text = .ok placeholders ->
      (∀ placeholder ∈ placeholders,
        placeholder.kind = .file ∨ placeholder.kind = .layout) ->
      composer.composeWith template text { maxRuns := maxRuns, markRegions := true } =
        .ok composition ->
      ∃ decompiled, decompile composition.content = .ok decompiled ∧
        decompiled.content = substitute (canonicalSpans placeholders) text := by
  intro composer scanned regional composed
  unfold Composer.composeWith at composed
  split at composed
  · dsimp only at composed
    rw [cleanText.resolveLinks_prepareEditable] at composed
    rcases exists_pieces cleanText.sound with ⟨pieces, unmarked, spelled⟩
    subst spelled
    have reads := (scan_spell_iff distinct).mp scanned
    rcases Nat.exists_eq_succ_of_ne_zero (Nat.ne_of_gt positive) with ⟨remaining, equal⟩
    subst equal
    cases placeholders with
    | nil =>
        rw [Composer.runWithin_of_no_tag scanned] at composed
        cases composed
        rcases decompile_regions unmarked (@Regions.nil kinds) with ⟨markers, done⟩
        rw [spell_nil, List.append_nil] at done
        exact ⟨_, done, rfl⟩
    | cons first others =>
        rw [Composer.runWithin_succ_of_tags scanned] at composed
        rcases bind_eq_ok_iff.mp composed with ⟨⟨document, registered⟩, finished, rest⟩
        have setting : CleanSetting listing addressing composer template :=
          ⟨clean, linkless, rfl, plainly, distinct⟩
        rcases run_spell setting wrapless reads finished with ⟨⟨resolved, all⟩, turned⟩
        subst turned
        have resolves := Composer.resolves_of_resolveAll all
        have marks : ({ maxRuns := remaining + 1, markRegions := true } : Options).markRegions =
            true := rfl
        have regions := reads.regions setting marks unmarked resolves regional
        rcases runWithin_regions setting wrapless regions rest with
          ⟨after, kept, content⟩
        have nothing : Unmarked [] := by
          intro piece member
          cases member
        rcases decompile_regions nothing kept with ⟨markers, done⟩
        rw [spell_nil, List.nil_append, List.nil_append] at done
        rw [content]
        exact ⟨_, done, rfl⟩
  · cases composed

end Restoring

/-- A layout that includes itself with another argument, within a frame. -/
def recurringFiles : Listing :=
  ⟨[(⟨"/site/page.html".toList⟩, "<!-- wrap:/frame --><i><!-- content:title --></i>".toList ++
      "<!-- layout:/page(title='x') -->".toList),
    (⟨"/site/frame.html".toList⟩, "<div><!-- content:main --></div>".toList)]⟩

def recurringComposer : Composer where
  site := recurringFiles.toSite (.atRoot ⟨"/site".toList⟩)
  kinds := [.file, .layout]

def recurringText : Text :=
  "<p><!-- layout:./page( title='Hi' ) --></p>".toList

def recurringTag : Placeholder where
  name := "/page".toList
  kind := .layout
  start := 3
  stop := 39
  tag := "<!-- layout:./page( title='Hi' ) -->".toList
  args := ["title='Hi'".toList]
  style := .call
  document := ⟨"/site/index.html".toList⟩

/-- Two runs, with the tag of the third one still inside. -/
def recurringComposition : Composition where
  content := "<p><!-- begin_layout-/page(title='Hi') --><div><i>Hi</i>".toList ++
    "<!-- begin_layout-/page(title='x') --><div><i>x</i>".toList ++
    "<!-- layout:/page(title='x') --></div><!-- end_layout-/page(title='x') -->".toList ++
    "</div><!-- end_layout-/page(title='Hi') --></p>".toList
  template := ⟨"/site/index.html".toList⟩
  includes := {}
  runs := 2
  converged := false

set_option maxRecDepth 100000 in
theorem decompile_composeWith_recurring :
    ∃ decompiled, decompile recurringComposition.content = .ok decompiled ∧
      decompiled.content = "<p><!-- layout:/page(title='Hi') --></p>".toList := by
  have clean : CleanSite recurringFiles (.atRoot ⟨"/site".toList⟩) := by decide +kernel
  have linkless : NoForgedLink (recurringFiles.toSite (.atRoot ⟨"/site".toList⟩)) := by
    apply clean.noForgedLink_of_dotless
    decide +kernel
  have distinct : [Kind.file, Kind.layout].Nodup := by decide
  have wrapless : Kind.wrap ∉ [Kind.file, Kind.layout] := by decide
  have plainly : Plainly (Path.mk "/site/index.html".toList).text := by decide +kernel
  have cleanText : Clean recurringText := by decide +kernel
  have scanned : recurringComposer.scan ⟨"/site/index.html".toList⟩ recurringText =
      .ok [recurringTag] := by decide +kernel
  have regional : ∀ placeholder ∈ [recurringTag],
      placeholder.kind = .file ∨ placeholder.kind = .layout := by decide
  have composed : recurringComposer.composeWith ⟨"/site/index.html".toList⟩ recurringText
      { maxRuns := 2, markRegions := true } = .ok recurringComposition := by decide +kernel
  have restored : substitute (canonicalSpans [recurringTag]) recurringText =
      "<p><!-- layout:/page(title='Hi') --></p>".toList := by decide +kernel
  rw [← restored]
  exact decompile_composeWith clean linkless distinct wrapless plainly cleanText (by decide)
    scanned regional composed

/-- With the forged link in it, a file holds what reads as its own end comment. -/
def forgedRegion : Composition where
  content := "<!-- begin_file-/f -->\"a<!-- begin_file-/c\"<!-- end_file-/f -->".toList ++
    "<div style=\"background-color: #f08080\">Could not process file:/c\"".toList ++
    "<!-- end_file-/f</div><!-- end_file-/c\"<!-- end_file-/f -->".toList
  template := ⟨"/site/index.html".toList⟩
  includes := {}
  runs := 2
  converged := true

set_option maxRecDepth 100000 in
theorem decompile_leaves_forged_region :
    CleanSite forgingFiles (.atRoot ⟨"/site".toList⟩) ∧ forgingComposer.kinds = [.file] ∧
      Plainly "/site/index.html".toList ∧ Clean forgedTag.tag ∧
      forgingComposer.scan ⟨"/site/index.html".toList⟩ forgedTag.tag = .ok [forgedTag] ∧
      forgingComposer.composeWith ⟨"/site/index.html".toList⟩ forgedTag.tag
        { maxRuns := 2, markRegions := true } = .ok forgedRegion ∧
      ∀ decompiled, decompile forgedRegion.content = .ok decompiled ->
        decompiled.content ≠ substitute (canonicalSpans [forgedTag]) forgedTag.tag := by
  refine ⟨?_, rfl, ?_, ?_, ?_, ?_, ?_⟩
  · decide +kernel
  · decide +kernel
  · decide +kernel
  · decide +kernel
  · decide +kernel
  · have longer : (decompile forgedRegion.content).map (fun decompiled =>
        decide (decompiled.content = substitute (canonicalSpans [forgedTag]) forgedTag.tag)) =
        .ok false := by decide +kernel
    intro decompiled done
    rw [done] at longer
    exact of_decide_eq_false (Except.ok.inj longer)

end PageComposer
