import PageComposer.Proofs.Markup.Erasing
import PageComposer.Proofs.Run.Pieces

namespace PageComposer

/-!
# Markers are transparent

A composition that marks its regions goes through the same runs as one that does
not.  The invariant of the two runs side by side is that the pieces of the
unmarked document are those of the marked one without the comments of regions.
Scans then read the same tags, which are resolved in the same way
(`run_alike`), and the last wrap stands between the same pieces, wherever its
offsets are by then.
-/

theorem erase_ledPieces {lead : Lead} (regional : lead = .begins ∨ lead = .ends) (rest : Text) :
    erase (ledPieces lead rest) = [] := by
  unfold ledPieces
  split
  · rcases regional with begins | ends
    · subst begins
      rfl
    · subst ends
      rfl
  · rfl

theorem erase_shownPieces {marked plain : Options} (marks : marked.markRegions = true)
    (leaves : plain.markRegions = false) (placeholder : Placeholder) {resolution : Resolution}
    (sound : Sound resolution.text) :
    erase (resolution.shownPieces marked placeholder) =
      resolution.shownPieces plain placeholder := by
  have inside := erase_of_unmarked sound.piecesOf.1
  have enclosed : erase (placeholder.enclosed (piecesOf resolution.text)) =
      piecesOf resolution.text := by
    unfold Placeholder.enclosed
    rw [erase_append, erase_append, inside, erase_ledPieces (Or.inl rfl),
      erase_ledPieces (Or.inr rfl), List.append_nil]
    rfl
  unfold Resolution.shownPieces
  cases placeholder.kind <;> simp only [marks, leaves, inside, enclosed]

/-- A list of pieces holds no wrap, or it is split at its last one. -/
theorem exists_last_wrap (kinds : List Kind) (pieces : List Piece) :
    (∀ piece ∈ pieces, ∀ raw, piece.tagAmong? kinds ≠ some (.wrap, raw)) ∨
      ∃ before piece after raw, pieces = before ++ piece :: after ∧
        piece.tagAmong? kinds = some (.wrap, raw) ∧
        ∀ later ∈ after, ∀ raw, later.tagAmong? kinds ≠ some (.wrap, raw) := by
  induction pieces with
  | nil =>
      apply Or.inl
      intro piece member
      cases member
  | cons piece others inductionHypothesis =>
      rcases inductionHypothesis with without | ⟨before, last, after, raw, joined, tagged, without⟩
      · by_cases own : ∃ raw, piece.tagAmong? kinds = some (.wrap, raw)
        · rcases own with ⟨raw, tagged⟩
          exact Or.inr ⟨[], piece, others, raw, rfl, tagged, without⟩
        · rw [not_exists] at own
          exact Or.inl (List.forall_mem_cons.mpr ⟨own, without⟩)
      · refine Or.inr ⟨piece :: before, last, after, raw, ?_, tagged, without⟩
        rw [joined]
        rfl

/-! ## Results without places -/

/-- A result for a placeholder, wherever that stands. -/
def unplacedResult (found : Placeholder × Resolution) : Placeholder × Resolution :=
  (found.1.unplaced, found.2)

theorem register_unplaced (includes : Includes) (resolved : List (Placeholder × Resolution)) :
    includes.register (resolved.map unplacedResult) = includes.register resolved := by
  unfold Includes.register
  simp only [List.filter_map, List.flatMap_map]
  rfl

section Transparency

variable {listing : Listing} {addressing : Addressing} {composer : Composer} {template : Path}
  {marked plain : Options}

theorem resolveAll_unplaced (sited : composer.site = listing.toSite addressing)
    (placeholders : List Placeholder) :
    (composer.resolveAll template placeholders).map (List.map unplacedResult) =
      composer.resolveAll template (placeholders.map Placeholder.unplaced) := by
  unfold Composer.resolveAll
  rw [mapM_map, List.mapM_map]
  congr 1
  funext placeholder
  have same := unplaced_resolve sited template placeholder 0
  change _ = Except.map _ (composer.resolve template (placeholder.placed 0))
  rw [same]
  cases composer.resolve template placeholder <;> rfl

/-- Equal placeholders at different places are resolved alike. -/
theorem resolveAll_alike (sited : composer.site = listing.toSite addressing)
    {first second : List Placeholder}
    (same : first.map Placeholder.unplaced = second.map Placeholder.unplaced) :
    Alike (fun one another => one.map unplacedResult = another.map unplacedResult)
      (composer.resolveAll template first.reverse)
      (composer.resolveAll template second.reverse) := by
  apply alike_of_map_eq
  rw [resolveAll_unplaced sited, resolveAll_unplaced sited, List.map_reverse, List.map_reverse,
    same]

theorem register_eq_of_unplaced {includes : Includes}
    {first second : List (Placeholder × Resolution)}
    (same : first.map unplacedResult = second.map unplacedResult) :
    includes.register first.reverse = includes.register second.reverse := by
  rw [← register_unplaced, ← register_unplaced includes second.reverse, List.map_reverse,
    List.map_reverse, same]

/-! ## Runs side by side -/

theorem erase_turned (setting : CleanSetting listing addressing composer template)
    (marks : marked.markRegions = true) (leaves : plain.markRegions = false) (piece : Piece) :
    erase (piece.turned composer template marked) =
      (erase [piece]).flatMap (Piece.turned composer template plain) := by
  rcases turned_cases setting piece with
    stays | ⟨unmarked, vanishes | ⟨placeholder, resolution, _, sound, turned⟩⟩
  · rw [stays]
    cases comment : piece.isRegionComment with
    | true => simp [erase, comment]
    | false => simp [erase, comment, stays]
  · rw [vanishes, erase_cons_of_unmarked unmarked, List.flatMap_cons, vanishes]
    rfl
  · rw [turned, erase_cons_of_unmarked unmarked, List.flatMap_cons, turned,
      erase_shownPieces marks leaves placeholder sound]
    exact (List.append_nil _).symm

theorem erase_flatMap_turned (setting : CleanSetting listing addressing composer template)
    (marks : marked.markRegions = true) (leaves : plain.markRegions = false)
    (pieces : List Piece) :
    erase (pieces.flatMap (Piece.turned composer template marked)) =
      (erase pieces).flatMap (Piece.turned composer template plain) := by
  induction pieces with
  | nil => rfl
  | cons piece others inductionHypothesis =>
      have split : erase (piece :: others) = erase [piece] ++ erase others :=
        erase_append [piece] others
      rw [List.flatMap_cons, erase_append, inductionHypothesis, split, List.flatMap_append,
        erase_turned setting marks leaves]

theorem erase_around {surroundings : Surroundings}
    (sound : Sound surroundings.before ∧ Sound surroundings.inside ∧ Sound surroundings.after)
    (front back : List Piece) :
    erase (surroundings.around front back) = surroundings.around (erase front) (erase back) := by
  unfold Surroundings.around
  simp only [erase_append, erase_of_unmarked sound.1.piecesOf.1,
    erase_of_unmarked sound.2.1.piecesOf.1, erase_of_unmarked sound.2.2.piecesOf.1]

/-- A run on pieces, and the run on those pieces without the comments of
regions. -/
theorem run_alike (setting : CleanSetting listing addressing composer template)
    (marks : marked.markRegions = true) (leaves : plain.markRegions = false)
    {pieces : List Piece} {first second : List Placeholder} (includes : Includes)
    (reads : Reads composer.site template composer.kinds 0 pieces first)
    (readsErased : Reads composer.site template composer.kinds 0 (erase pieces) second)
    (same : first.map Placeholder.unplaced = second.map Placeholder.unplaced) :
    Alike
      (fun one another => ∃ after, one.1 = spell after ∧ another.1 = spell (erase after) ∧
        one.2 = another.2)
      (composer.run template marked (spell pieces) first includes)
      (composer.run template plain (spell (erase pieces)) second includes) := by
  have erased := erase_flatMap_turned setting marks leaves
  have resolved := @resolveAll_alike _ _ _ template setting.sited _ _ same
  rcases exists_last_wrap composer.kinds pieces with
    without | ⟨before, piece, after, raw, joined, tagged, without⟩
  · have withoutErased : ∀ piece ∈ erase pieces, ∀ raw,
        piece.tagAmong? composer.kinds ≠ some (.wrap, raw) :=
      fun piece member => without piece (List.mem_filter.mp member).1
    rw [run_spell_without_wrap setting reads without,
      run_spell_without_wrap setting readsErased withoutErased]
    apply resolved.map
    intro one another equal
    refine ⟨pieces.flatMap (Piece.turned composer template marked), rfl, ?_,
      register_eq_of_unplaced equal⟩
    rw [erased]
  · subst joined
    have withoutErased : ∀ later ∈ erase after, ∀ raw,
        later.tagAmong? composer.kinds ≠ some (.wrap, raw) :=
      fun later member => without later (List.mem_filter.mp member).1
    rcases exists_reads_iff.mp ⟨first, reads⟩ piece
      (List.mem_append_right _ List.mem_cons_self) _ _ tagged with ⟨wrap, read⟩
    have tidy := setting.tidy_tag tagged read
    have split : erase (before ++ piece :: after) = erase before ++ piece :: erase after := by
      rw [erase_append, erase_cons_of_unmarked (not_isRegionComment_of_tagAmong? tagged)]
    rw [split] at readsErased ⊢
    rw [run_spell_with_wrap setting reads tagged read without,
      run_spell_with_wrap setting readsErased tagged read withoutErased]
    apply resolved.bind
    intro one another equal
    have around : Alike (fun left right => left = right ∧ Sound left.before ∧ Sound left.inside ∧
        Sound left.after) (surround composer.site wrap) (surround composer.site wrap) := by
      apply alike_self
      intro surroundings found
      exact ⟨rfl, setting.clean.sound_surround setting.linkless tidy.name
        (setting.sited ▸ found)⟩
    apply around.map
    rintro left right ⟨rfl, sound⟩
    refine ⟨left.around (before.flatMap (Piece.turned composer template marked))
      (after.flatMap (Piece.turned composer template marked)), rfl, ?_,
      register_eq_of_unplaced equal⟩
    rw [erase_around sound, erased, erased]

/-! ## Compositions side by side -/

/-- The compositions agree once the comments of regions are deleted. -/
structure Unmarks (marked plain : Composition) : Prop where
  content : dropMarkers marked.content = plain.content
  template : marked.template = plain.template
  includes : marked.includes = plain.includes
  runs : marked.runs = plain.runs
  converged : marked.converged = plain.converged

theorem unmarks_spell (pieces : List Piece) (template : Path) (includes : Includes) (runs : Nat)
    (converged : Bool) :
    Unmarks ⟨spell pieces, template, includes, runs, converged⟩
      ⟨spell (erase pieces), template, includes, runs, converged⟩ :=
  ⟨dropMarkers_spell pieces, rfl, rfl, rfl, rfl⟩

/-- The scans of a document with and without the comments of regions. -/
theorem erased_scans (template : Path) (distinct : composer.kinds.Nodup) (pieces : List Piece) :
    (∃ failure, composer.scan template (spell pieces) = .error failure ∧
      composer.scan template (spell (erase pieces)) = .error failure) ∨
    (composer.scan template (spell pieces) = .ok [] ∧
      composer.scan template (spell (erase pieces)) = .ok []) ∨
    ∃ tag others other more,
      composer.scan template (spell pieces) = .ok (tag :: others) ∧
      composer.scan template (spell (erase pieces)) = .ok (other :: more) ∧
      (tag :: others).map Placeholder.unplaced = (other :: more).map Placeholder.unplaced := by
  have scans : Alike _ (composer.scan template (spell pieces))
    (composer.scan template (spell (erase pieces))) := scan_erase distinct pieces
  generalize composer.scan template (spell pieces) = first at scans ⊢
  generalize composer.scan template (spell (erase pieces)) = second at scans ⊢
  cases scans with
  | failed failure => exact Or.inl ⟨failure, rfl, rfl⟩
  | @done left right same =>
      cases left with
      | nil =>
          rw [List.map_nil] at same
          rw [List.map_eq_nil_iff.mp same.symm]
          exact Or.inr (Or.inl ⟨rfl, rfl⟩)
      | cons tag others =>
          cases right with
          | nil => cases same
          | cons other more => exact Or.inr (Or.inr ⟨tag, others, other, more, rfl, rfl, same⟩)

theorem runWithin_alike (setting : CleanSetting listing addressing composer template)
    (marks : marked.markRegions = true) (leaves : plain.markRegions = false)
    (remaining runs : Nat) (pieces : List Piece) (includes : Includes) :
    Alike Unmarks
      (composer.runWithin template marked remaining runs (spell pieces) includes)
      (composer.runWithin template plain remaining runs (spell (erase pieces)) includes) := by
  induction remaining generalizing runs pieces includes with
  | zero =>
      rcases erased_scans template setting.distinct pieces with
        ⟨failure, first, second⟩ | ⟨first, second⟩ | ⟨tag, others, other, more, first, second, _⟩
      · rw [Composer.runWithin_of_error first, Composer.runWithin_of_error second]
        exact .failed failure
      · rw [Composer.runWithin_of_no_tag first, Composer.runWithin_of_no_tag second]
        exact .done (unmarks_spell pieces template includes runs true)
      · rw [Composer.runWithin_zero_of_tags first, Composer.runWithin_zero_of_tags second]
        exact .done (unmarks_spell pieces template includes runs false)
  | succ remaining inductionHypothesis =>
      rcases erased_scans template setting.distinct pieces with
        ⟨failure, first, second⟩ | ⟨first, second⟩ | ⟨tag, others, other, more, first, second, same⟩
      · rw [Composer.runWithin_of_error first, Composer.runWithin_of_error second]
        exact .failed failure
      · rw [Composer.runWithin_of_no_tag first, Composer.runWithin_of_no_tag second]
        exact .done (unmarks_spell pieces template includes runs true)
      · rw [Composer.runWithin_succ_of_tags first, Composer.runWithin_succ_of_tags second]
        have reads := (scan_spell_iff setting.distinct).mp first
        have readsErased := (scan_spell_iff setting.distinct).mp second
        have ran := run_alike setting marks leaves includes reads readsErased same
        apply ran.bind
        rintro ⟨text, registered⟩ ⟨erasedText, again⟩ ⟨after, spelled, erased, equal⟩
        dsimp only at spelled erased equal ⊢
        rw [spelled, erased, equal]
        exact inductionHypothesis (runs + 1) after again

/-- Over a clean site in which no wrap closes a relative link up, a template is
composed alike with and without markers: both compositions fail with the same
failure, or both end after the same runs with the same addresses, and deleting
the comments of regions from the one page gives the other. -/
theorem Composer.composeWith_markers (clean : CleanSite listing addressing)
    (linkless : NoForgedLink (listing.toSite addressing)) {kinds : List Kind}
    (distinct : kinds.Nodup) {template : Path} (plainly : Plainly template.text) {text : Text}
    (cleanText : Clean text) (maxRuns : Nat) :
    let composer : Composer := { site := listing.toSite addressing, kinds := kinds }
    Alike Unmarks
      (composer.composeWith template text { maxRuns := maxRuns, markRegions := true })
      (composer.composeWith template text { maxRuns := maxRuns, markRegions := false }) := by
  intro composer
  unfold composeWith
  dsimp only
  rw [cleanText.resolveLinks_prepareEditable]
  split
  · rcases exists_pieces cleanText.sound with ⟨pieces, unmarked, spelled⟩
    have setting : CleanSetting listing addressing composer template :=
      ⟨clean, linkless, rfl, plainly, distinct⟩
    have alike := @runWithin_alike _ _ composer template
      { maxRuns := maxRuns, markRegions := true } { maxRuns := maxRuns, markRegions := false }
      setting rfl rfl maxRuns 0 pieces {}
    rw [erase_of_unmarked unmarked, spelled] at alike
    exact alike
  · exact .failed _

end Transparency

namespace Composer

/-- A part within a frame. -/
def framedPartFiles : Listing :=
  ⟨[(⟨"/site/part.html".toList⟩, "<!-- wrap:/frame -->part".toList),
    (⟨"/site/frame.html".toList⟩, "<p><!-- content:main --></p>".toList)]⟩

def framedPartComposer : Composer where
  site := framedPartFiles.toSite (.atRoot ⟨"/site".toList⟩)

set_option maxRecDepth 100000 in
theorem composeWith_markers_around_part :
    ∃ plain, framedPartComposer.composeWith ⟨"/site/index.html".toList⟩
        "a <!-- file:/part --> b".toList { maxRuns := 100, markRegions := false } = .ok plain ∧
      plain.content = "a <p>part</p> b".toList ∧ plain.runs = 1 ∧ plain.converged = true := by
  have clean : CleanSite framedPartFiles (.atRoot ⟨"/site".toList⟩) := by decide +kernel
  have linkless : NoForgedLink (framedPartFiles.toSite (.atRoot ⟨"/site".toList⟩)) := by
    apply clean.noForgedLink_of_dotless
    decide +kernel
  have plainly : Plainly (Path.mk "/site/index.html".toList).text := by decide +kernel
  have cleanText : Clean "a <!-- file:/part --> b".toList := by decide +kernel
  have alike := @composeWith_markers _ _ clean linkless Kind.all (by decide) _ plainly _ cleanText
    100
  have composed : framedPartComposer.composeWith ⟨"/site/index.html".toList⟩
      "a <!-- file:/part --> b".toList { maxRuns := 100, markRegions := true } =
      .ok ⟨"a <!-- begin_file-/part --><p>part</p><!-- end_file-/part --> b".toList,
        ⟨"/site/index.html".toList⟩, {}, 1, true⟩ := by decide +kernel
  change Alike Unmarks (framedPartComposer.composeWith _ _ _) (framedPartComposer.composeWith _ _ _)
    at alike
  rw [composed] at alike
  generalize framedPartComposer.composeWith _ _ { maxRuns := 100, markRegions := false } = result
    at alike ⊢
  cases alike with
  | @done _ plain agree =>
      refine ⟨plain, rfl, ?_, agree.runs.symm, agree.converged.symm⟩
      rw [← agree.content]
      decide +kernel

/-- With markers the end comment of the forged file closes the opening in it. -/
theorem composeWith_markers_close_forged_opening :
    CleanSite forgingFiles (.atRoot ⟨"/site".toList⟩) ∧ Clean "<!-- file:/f -->".toList ∧
      Plainly "/site/index.html".toList ∧ forgingComposer.kinds.Nodup ∧
      (forgingComposer.composeWith ⟨"/site/index.html".toList⟩ "<!-- file:/f -->".toList
        { maxRuns := 100, markRegions := true }).isOk = true ∧
      forgingComposer.composeWith ⟨"/site/index.html".toList⟩ "<!-- file:/f -->".toList
          { maxRuns := 100, markRegions := false } =
        .error (.unterminated "<!-- file:/c\"".toList ⟨"/site/index.html".toList⟩) := by
  decide +kernel

end Composer
end PageComposer
