import Mathlib
import PageComposer.Proofs.Run.Pieces

namespace PageComposer

/-!
# Runs and the recursive expansion of a document

A composition scans the whole document anew in every run.  The expansion of a
document is defined without runs: every tag is replaced by the expansion of its
own replacement, so many levels deep.  Over a clean site the two agree
(`Composer.composeWith_expands`): the tags of a document after a run are those of
the texts that were put in, since no tag arises or is lost at a seam.  The number
of runs is the height of the document, as far as the limit allows.

The height is a supremum over the levels that are looked at, so it is infinite
for a document that includes itself.  It obeys the law one would define it by
(`Composer.height_eq`).
-/

namespace Composer

/-- The text that stands in place of a tag in a page without markers. -/
def unmarked (composer : Composer) (template : Path) (placeholder : Placeholder) :
    Except Failure Text :=
  composer.replacement template { markRegions := false } placeholder

/-- Every tag replaced by the expansion of its replacement, so many levels deep. -/
def expand (composer : Composer) (template : Path) : Nat -> Text -> Except Failure Text
  | 0, text => .ok text
  | levels + 1, text =>
      rewriteTags composer.site template composer.kinds
        (fun placeholder => do
          let replacement <- composer.unmarked template placeholder
          composer.expand template levels replacement)
        text

/-- How many levels of tags show when so many are looked at. -/
def heightWithin (composer : Composer) (template : Path) : Nat -> Text -> Nat
  | 0, _ => 0
  | levels + 1, text =>
      match composer.scan template text with
      | .error _ => 0
      | .ok placeholders =>
          (placeholders.map fun placeholder =>
            match composer.unmarked template placeholder with
            | .ok replacement => 1 + composer.heightWithin template levels replacement
            | .error _ => 1).foldr max 0

/-- How many levels of tags a document has. -/
noncomputable def height (composer : Composer) (template : Path) (text : Text) : ℕ∞ :=
  ⨆ levels, (composer.heightWithin template levels text : ℕ∞)

/-- The height of what stands in place of a tag; nothing is counted where the
tag cannot be replaced. -/
noncomputable def heightBehind (composer : Composer) (template : Path)
    (placeholder : Placeholder) : ℕ∞ :=
  match composer.unmarked template placeholder with
  | .ok replacement => composer.height template replacement
  | .error _ => 0

end Composer

/-! ## Heights -/

theorem foldr_max_le_iff {heights : List ℕ∞} {bound : ℕ∞} :
    heights.foldr max 0 ≤ bound ↔ ∀ height ∈ heights, height ≤ bound := by
  induction heights with
  | nil => simp
  | cons first others inductionHypothesis =>
      rw [List.foldr_cons, max_le_iff, inductionHypothesis, List.forall_mem_cons]

theorem le_foldr_max {heights : List ℕ∞} {height : ℕ∞} (member : height ∈ heights) :
    height ≤ heights.foldr max 0 :=
  foldr_max_le_iff.mp le_rfl height member

theorem foldr_max_append (left right : List ℕ∞) :
    (left ++ right).foldr max 0 = max (left.foldr max 0) (right.foldr max 0) := by
  induction left with
  | nil => exact (max_eq_right zero_le).symm
  | cons first others inductionHypothesis =>
      rw [List.cons_append, List.foldr_cons, List.foldr_cons, inductionHypothesis, max_assoc]

theorem cast_foldr_max (heights : List Nat) :
    ((heights.foldr max 0 : Nat) : ℕ∞) = (heights.map Nat.cast).foldr max 0 := by
  induction heights with
  | nil => rfl
  | cons first others inductionHypothesis =>
      rw [List.foldr_cons, List.map_cons, List.foldr_cons, ← inductionHypothesis]
      exact Nat.mono_cast.map_max

/-- A document without tags has no height, and any other is one level higher
than the highest of its replacements. -/
theorem Composer.height_eq {composer : Composer} {template : Path} {text : Text}
    {placeholders : List Placeholder} (scanned : composer.scan template text = .ok placeholders) :
    composer.height template text =
      (placeholders.map fun placeholder =>
        1 + composer.heightBehind template placeholder).foldr max 0 := by
  have levelEq (levels : Nat) : (composer.heightWithin template (levels + 1) text : ℕ∞) =
      (placeholders.map fun placeholder =>
        match composer.unmarked template placeholder with
        | .ok replacement => 1 + (composer.heightWithin template levels replacement : ℕ∞)
        | .error _ => 1).foldr max 0 := by
    rw [heightWithin, scanned]
    dsimp only
    rw [cast_foldr_max, List.map_map]
    congr 1
    apply List.map_congr_left
    intro placeholder _
    dsimp only [Function.comp]
    split
    · push_cast
      rfl
    · rfl
  apply le_antisymm
  · apply iSup_le
    intro levels
    cases levels with
    | zero => exact zero_le
    | succ levels =>
        rw [levelEq]
        apply foldr_max_le_iff.mpr
        intro found member
        rcases List.mem_map.mp member with ⟨placeholder, within, equal⟩
        refine le_trans ?_ (le_foldr_max (List.mem_map_of_mem within))
        rw [← equal]
        unfold heightBehind
        cases composer.unmarked template placeholder with
        | error failure => exact le_add_right le_rfl
        | ok replacement =>
            exact add_le_add le_rfl (le_iSup
              (fun levels => (composer.heightWithin template levels replacement : ℕ∞)) levels)
  · apply foldr_max_le_iff.mpr
    intro found member
    rcases List.mem_map.mp member with ⟨placeholder, within, equal⟩
    rw [← equal]
    have above (levels : Nat) : (match composer.unmarked template placeholder with
        | .ok replacement => 1 + (composer.heightWithin template levels replacement : ℕ∞)
        | .error _ => 1) ≤ composer.height template text := by
      refine le_trans ?_ (le_iSup
        (fun levels => (composer.heightWithin template levels text : ℕ∞)) (levels + 1))
      rw [levelEq]
      exact le_foldr_max (List.mem_map_of_mem within)
    unfold heightBehind
    cases replaced : composer.unmarked template placeholder with
    | error failure =>
        rw [replaced] at above
        exact above 0
    | ok replacement =>
        rw [replaced] at above
        dsimp only at above ⊢
        rw [height, ENat.add_iSup]
        exact iSup_le above

/-- What cannot be scanned has no height. -/
theorem Composer.height_of_error {composer : Composer} {template : Path} {text : Text}
    {failure : Failure} (scanned : composer.scan template text = .error failure) :
    composer.height template text = 0 := by
  apply ENat.iSup_eq_zero.mpr
  intro levels
  cases levels with
  | zero => rfl
  | succ levels =>
      rw [heightWithin, scanned]
      rfl

/-! ## Expanding pieces -/

theorem shown_of_not_marked {options : Options} (plain : options.markRegions = false)
    (placeholder : Placeholder) (resolution : Resolution) :
    resolution.shown options placeholder = resolution.text := by
  unfold Resolution.shown
  cases placeholder.kind <;> simp [Placeholder.region, plain]

theorem unmarked_eq (composer : Composer) (template : Path) (placeholder : Placeholder) :
    composer.unmarked template placeholder =
      (composer.resolve template placeholder).map Resolution.text := by
  unfold Composer.unmarked Composer.replacement
  congr 1
  funext resolution
  exact shown_of_not_marked rfl placeholder resolution

/-- A piece expanded so many levels deep. -/
def Piece.expanded (composer : Composer) (template : Path) (levels : Nat) (piece : Piece) :
    Except Failure Text :=
  match levels with
  | 0 => .ok piece.text
  | levels + 1 =>
      piece.rewritten composer.site template composer.kinds fun placeholder => do
        let replacement <- composer.unmarked template placeholder
        composer.expand template levels replacement

/-- The height of the text that a piece spells. -/
noncomputable def Piece.height (composer : Composer) (template : Path) (piece : Piece) : ℕ∞ :=
  match piece.tagAmong? composer.kinds with
  | none => 0
  | some (kind, raw) =>
      match readTag composer.site template kind 0 raw with
      | .ok placeholder => 1 + composer.heightBehind template placeholder
      | .error _ => 0

/-- A piece that is no tag, or a tag that can be read and resolved. -/
def Piece.Resolves (composer : Composer) (template : Path) (piece : Piece) : Prop :=
  ∀ kind raw, piece.tagAmong? composer.kinds = some (kind, raw) ->
    ∃ placeholder resolution, readTag composer.site template kind 0 raw = .ok placeholder ∧
      composer.resolve template placeholder = .ok resolution

section Expanding

variable {listing : Listing} {addressing : Addressing} {composer : Composer} {template : Path}

theorem unplaced_unmarked (sited : composer.site = listing.toSite addressing) :
    Unplaced (composer.unmarked template) := by
  intro placeholder start
  rw [unmarked_eq, unmarked_eq, unplaced_resolve sited template placeholder start]

theorem expand_spell_iff (setting : CleanSetting listing addressing composer template)
    {levels : Nat} {pieces : List Piece} {result : Text} :
    composer.expand template levels (spell pieces) = .ok result ↔
      ∃ parts : List Text, pieces.map (Piece.expanded composer template levels) = parts.map .ok ∧
        result = parts.flatten := by
  cases levels with
  | zero =>
      have spelled : spell pieces = (pieces.map Piece.text).flatten := rfl
      constructor
      · intro equal
        cases equal
        refine ⟨pieces.map Piece.text, ?_, spelled⟩
        rw [List.map_map]
        rfl
      · rintro ⟨parts, equal, joined⟩
        have texts : pieces.map Piece.text = parts := by
          apply (List.map_inj_right fun _ _ => @Except.ok.inj Failure Text _ _).mp
          rw [← equal, List.map_map]
          rfl
        rw [joined, ← texts, ← spelled]
        rfl
  | succ levels =>
      apply rewriteTags_spell_iff setting.distinct
      intro placeholder start
      dsimp only
      rw [unplaced_unmarked setting.sited placeholder start]

theorem expand_spell_append_iff (setting : CleanSetting listing addressing composer template)
    {levels : Nat} {left right : List Piece} {result : Text} :
    composer.expand template levels (spell (left ++ right)) = .ok result ↔
      ∃ first second, composer.expand template levels (spell left) = .ok first ∧
        composer.expand template levels (spell right) = .ok second ∧ result = first ++ second := by
  rw [expand_spell_iff setting]
  constructor
  · rintro ⟨parts, expanded, joined⟩
    rw [List.map_append] at expanded
    rcases List.append_eq_map_iff.mp expanded with ⟨former, latter, split, first, second⟩
    refine ⟨former.flatten, latter.flatten, ?_, ?_, ?_⟩
    · exact (expand_spell_iff setting).mpr ⟨former, first.symm, rfl⟩
    · exact (expand_spell_iff setting).mpr ⟨latter, second.symm, rfl⟩
    · rw [joined, split, List.flatten_append]
  · rintro ⟨first, second, former, latter, joined⟩
    rcases (expand_spell_iff setting).mp former with ⟨firstParts, firstEqual, firstJoined⟩
    rcases (expand_spell_iff setting).mp latter with ⟨secondParts, secondEqual, secondJoined⟩
    refine ⟨firstParts ++ secondParts, ?_, ?_⟩
    · rw [List.map_append, List.map_append, firstEqual, secondEqual]
    · rw [joined, firstJoined, secondJoined, List.flatten_append]

/-- The tags that a scan read and a run resolved. -/
theorem Reads.resolves (sited : composer.site = listing.toSite addressing) {offset : Nat}
    {pieces : List Piece} {placeholders : List Placeholder}
    (reads : Reads composer.site template composer.kinds offset pieces placeholders)
    {resolved : List (Placeholder × Resolution)}
    (all : composer.resolveAll template placeholders = .ok resolved) :
    ∀ piece ∈ pieces, piece.Resolves composer template := by
  intro piece member kind raw tagged
  rcases List.append_of_mem member with ⟨before, after, split⟩
  rw [split] at reads
  rcases reads.exists_append with ⟨earlier, later, joined, _, behind⟩
  cases behind with
  | skip other _ =>
      rw [tagged] at other
      cases other
  | @read _ _ _ _ _ placeholder _ again accepted _ =>
      rw [tagged] at again
      cases again
      rcases Composer.resolves_of_resolveAll all placeholder
        (joined ▸ List.mem_append_right _ List.mem_cons_self) with ⟨resolution, resolves⟩
      rw [readTag_placed] at accepted
      rcases map_eq_ok_iff.mp accepted with ⟨unplaced, read, equal⟩
      rw [← equal, unplaced_resolve sited] at resolves
      exact ⟨unplaced, resolution, read, resolves⟩

theorem resolves_of_cons {piece : Piece} {others : List Piece}
    (each : ∀ found ∈ piece :: others, found.Resolves composer template) :
    piece.Resolves composer template ∧ ∀ found ∈ others, found.Resolves composer template :=
  List.forall_mem_cons.mp each

/-- What a tag turns into is spelled as its replacement. -/
theorem spell_turned (setting : CleanSetting listing addressing composer template)
    (wrapless : Kind.wrap ∉ composer.kinds) {options : Options}
    (plain : options.markRegions = false) {piece : Piece} {kind : Kind} {raw : Text}
    (tagged : piece.tagAmong? composer.kinds = some (kind, raw))
    (resolves : piece.Resolves composer template) :
    ∃ placeholder, readTag composer.site template kind 0 raw = .ok placeholder ∧
      composer.unmarked template placeholder =
        .ok (spell (piece.turned composer template options)) := by
  rcases resolves kind raw tagged with ⟨placeholder, resolution, read, resolved⟩
  have other : kind ≠ .wrap := by
    intro isWrap
    rw [isWrap] at tagged
    exact wrapless (tagAmong?_eq_some tagged).1
  rcases setting.sound_tag tagged read other resolved with ⟨tidy, sound⟩
  refine ⟨placeholder, read, ?_⟩
  rw [turned_of_read setting.sited tagged read other resolved, spell_shownPieces tidy sound,
    shown_of_not_marked plain, unmarked_eq, resolved]
  rfl

theorem expanded_of_not_tagged {levels : Nat} {piece : Piece}
    (other : piece.tagAmong? composer.kinds = none) :
    piece.expanded composer template levels = .ok piece.text := by
  cases levels with
  | zero => rfl
  | succ levels => exact rewritten_of_not_tagged other

/-- Expanding what a run has turned the pieces into expands the pieces by one
level more. -/
theorem expand_turned (setting : CleanSetting listing addressing composer template)
    (wrapless : Kind.wrap ∉ composer.kinds) {options : Options}
    (plain : options.markRegions = false) {levels : Nat} {pieces : List Piece}
    (each : ∀ piece ∈ pieces, piece.Resolves composer template) {result : Text}
    (expanded : composer.expand template levels
      (spell (pieces.flatMap (Piece.turned composer template options))) = .ok result) :
    ∃ parts : List Text,
      pieces.map (Piece.expanded composer template (levels + 1)) = parts.map .ok ∧
        result = parts.flatten := by
  induction pieces generalizing result with
  | nil =>
      rcases (expand_spell_iff setting).mp expanded with ⟨parts, nothing, joined⟩
      exact ⟨parts, nothing, joined⟩
  | cons piece others inductionHypothesis =>
      rcases resolves_of_cons each with ⟨here, behind⟩
      rw [List.flatMap_cons, expand_spell_append_iff setting] at expanded
      rcases expanded with ⟨first, second, former, latter, joined⟩
      rcases inductionHypothesis behind latter with ⟨parts, rest, restJoined⟩
      refine ⟨first :: parts, ?_, ?_⟩
      · rw [List.map_cons, List.map_cons, rest]
        congr 1
        cases tagged : piece.tagAmong? composer.kinds with
        | none =>
            rw [turned_of_not_tagged tagged] at former
            rcases (expand_spell_iff setting).mp former with ⟨single, own, whole⟩
            rw [List.map_cons, expanded_of_not_tagged tagged, List.map_nil] at own
            rw [expanded_of_not_tagged tagged, whole]
            cases single with
            | nil => cases own
            | cons text more =>
                cases more with
                | cons _ _ => cases own
                | nil =>
                    cases own
                    simp
        | some tag =>
            rcases tag with ⟨kind, raw⟩
            rcases spell_turned setting wrapless plain tagged here with
              ⟨placeholder, read, replaced⟩
            simp only [Piece.expanded, Piece.rewritten, tagged, read]
            change (composer.unmarked template placeholder >>= _) = _
            rw [replaced]
            exact former
      · rw [joined, restJoined, List.flatten_cons]

/-! ## Heights of pieces -/

theorem heightBehind_placed (sited : composer.site = listing.toSite addressing)
    (placeholder : Placeholder) (start : Nat) :
    composer.heightBehind template (placeholder.placed start) =
      composer.heightBehind template placeholder := by
  unfold Composer.heightBehind
  rw [unplaced_unmarked sited placeholder start]

theorem height_of_not_tagged {piece : Piece} (other : piece.tagAmong? composer.kinds = none) :
    piece.height composer template = 0 := by
  simp only [Piece.height, other]

/-- The height of a text is that of its highest piece. -/
theorem height_spell (setting : CleanSetting listing addressing composer template)
    {pieces : List Piece} {placeholders : List Placeholder}
    (reads : Reads composer.site template composer.kinds 0 pieces placeholders) :
    composer.height template (spell pieces) =
      (pieces.map (Piece.height composer template)).foldr max 0 := by
  rw [Composer.height_eq ((scan_spell_iff setting.distinct).mpr reads)]
  generalize (0 : Nat) = offset at reads
  induction reads with
  | nil => rfl
  | skip other _ inductionHypothesis =>
      rw [List.map_cons, List.foldr_cons, height_of_not_tagged other, inductionHypothesis]
      exact (max_eq_right zero_le).symm
  | @read offset piece rest kind raw placeholder placeholders tagged accepted _
      inductionHypothesis =>
      have own : piece.height composer template =
          1 + composer.heightBehind template placeholder := by
        rw [readTag_placed] at accepted
        rcases map_eq_ok_iff.mp accepted with ⟨unplaced, read, equal⟩
        simp only [Piece.height, tagged, read]
        rw [← equal, heightBehind_placed setting.sited]
      rw [List.map_cons, List.map_cons, List.foldr_cons, List.foldr_cons, own, inductionHypothesis]

/-- A run takes one level off: the highest piece before it is one higher than the
highest one after it, where there is a tag at all. -/
theorem height_turned (setting : CleanSetting listing addressing composer template)
    (wrapless : Kind.wrap ∉ composer.kinds) {options : Options}
    (plain : options.markRegions = false) {pieces : List Piece}
    (each : ∀ piece ∈ pieces, piece.Resolves composer template)
    (readable : ∃ placeholders, Reads composer.site template composer.kinds 0
      (pieces.flatMap (Piece.turned composer template options)) placeholders) :
    max 1 ((pieces.map (Piece.height composer template)).foldr max 0) =
      1 + ((pieces.flatMap (Piece.turned composer template options)).map
        (Piece.height composer template)).foldr max 0 := by
  induction pieces with
  | nil => rfl
  | cons piece others inductionHypothesis =>
      rcases resolves_of_cons each with ⟨here, behind⟩
      have tags := exists_reads_iff.mp readable
      rw [List.flatMap_cons] at tags ⊢
      rw [List.forall_mem_append] at tags
      have later := inductionHypothesis behind (exists_reads_iff.mpr tags.2)
      rw [List.map_cons, List.foldr_cons, List.map_append, foldr_max_append]
      cases tagged : piece.tagAmong? composer.kinds with
      | none =>
          rw [turned_of_not_tagged tagged, List.map_cons, List.map_nil, List.foldr_cons,
            List.foldr_nil, height_of_not_tagged tagged, max_self, max_eq_right zero_le,
            max_eq_right zero_le]
          exact later
      | some tag =>
          rcases tag with ⟨kind, raw⟩
          rcases spell_turned setting wrapless plain tagged here with
            ⟨placeholder, read, replaced⟩
          rcases exists_reads_iff.mpr tags.1 with ⟨placeholders, reads⟩
          have own : piece.height composer template =
              1 + ((piece.turned composer template options).map
                (Piece.height composer template)).foldr max 0 := by
            simp only [Piece.height, tagged, read]
            rw [← height_spell setting reads, Composer.heightBehind, replaced]
          rw [own, max_left_comm, later, max_add_add_left]

/-! ## Compositions -/

/-- Runs from a document of pieces on. -/
theorem runWithin_expands (setting : CleanSetting listing addressing composer template)
    (wrapless : Kind.wrap ∉ composer.kinds) {options : Options}
    (plain : options.markRegions = false) {remaining runs : Nat} {pieces : List Piece}
    {includes : Includes} {composition : Composition}
    (composed : composer.runWithin template options remaining runs (spell pieces) includes =
      .ok composition) :
    composer.expand template remaining (spell pieces) = .ok composition.content ∧
      (composition.runs : ℕ∞) =
        runs + min (remaining : ℕ∞) (composer.height template (spell pieces)) ∧
      (composition.converged = true ↔
        composer.height template (spell pieces) ≤ remaining) := by
  induction remaining generalizing runs pieces includes with
  | zero =>
      rcases Composer.exists_scan_of_runWithin composed with ⟨placeholders, scanned⟩
      rw [Composer.height_eq scanned]
      cases placeholders with
      | nil =>
          rw [Composer.runWithin_of_no_tag scanned] at composed
          cases composed
          exact ⟨rfl, by simp, by simp⟩
      | cons first others =>
          rw [Composer.runWithin_zero_of_tags scanned] at composed
          cases composed
          exact ⟨rfl, by simp, by simp⟩
  | succ remaining inductionHypothesis =>
      rcases Composer.exists_scan_of_runWithin composed with ⟨placeholders, scanned⟩
      have reads := (scan_spell_iff setting.distinct).mp scanned
      cases placeholders with
      | nil =>
          rw [Composer.runWithin_of_no_tag scanned] at composed
          cases composed
          refine ⟨?_, ?_, ?_⟩
          · change (composer.scan template (spell pieces) >>= _) = _
            rw [scanned]
            rfl
          · rw [Composer.height_eq scanned]
            simp
          · rw [Composer.height_eq scanned]
            simp
      | cons first others =>
          rw [Composer.runWithin_succ_of_tags scanned] at composed
          rcases bind_eq_ok_iff.mp composed with ⟨⟨text, after⟩, finished, rest⟩
          rcases run_spell setting wrapless reads finished with ⟨⟨resolved, all⟩, turned⟩
          subst turned
          have each := reads.resolves setting.sited all
          rcases Composer.exists_scan_of_runWithin rest with ⟨found, scannedAgain⟩
          have readsAgain := (scan_spell_iff setting.distinct).mp scannedAgain
          have level := height_turned setting wrapless plain each ⟨found, readsAgain⟩
          rw [← height_spell setting reads, ← height_spell setting readsAgain,
            max_eq_right ?_] at level
          · rcases inductionHypothesis rest with ⟨expanded, made, converged⟩
            refine ⟨?_, ?_, ?_⟩
            · exact (expand_spell_iff setting).mpr
                (expand_turned setting wrapless plain each expanded)
            · rw [made, level]
              push_cast
              rw [add_assoc, add_comm (remaining : ℕ∞) 1, min_add_add_left]
            · rw [converged, level]
              push_cast
              rw [add_comm (remaining : ℕ∞) 1]
              exact (ENat.add_le_add_iff_left ENat.one_ne_top).symm
          · rw [Composer.height_eq scanned, List.map_cons, List.foldr_cons]
            exact le_max_of_le_left (le_add_right le_rfl)

/-- Over a clean site in which no wrap closes a relative link up, a composition
without markers is the expansion of the template as many levels deep as runs are
allowed.  It makes one run for each level of the template that the limit allows,
and converges when the limit allows them all. -/
theorem Composer.composeWith_expands (clean : CleanSite listing addressing)
    (linkless : NoForgedLink (listing.toSite addressing)) {kinds : List Kind}
    (distinct : kinds.Nodup) (wrapless : Kind.wrap ∉ kinds) {template : Path}
    (plainly : Plainly template.text) {text : Text} (cleanText : Clean text) (maxRuns : Nat)
    {composition : Composition} :
    let composer : Composer := { site := listing.toSite addressing, kinds := kinds }
    composer.composeWith template text { maxRuns := maxRuns, markRegions := false } =
        .ok composition ->
      composer.expand template maxRuns text = .ok composition.content ∧
        (composition.runs : ℕ∞) = min (maxRuns : ℕ∞) (composer.height template text) ∧
        (composition.converged = true ↔ composer.height template text ≤ maxRuns) := by
  intro composer composed
  unfold composeWith at composed
  split at composed
  · dsimp only at composed
    rw [cleanText.resolveLinks_prepareEditable] at composed
    rcases exists_pieces cleanText.sound with ⟨pieces, _, spelled⟩
    rw [← spelled] at composed ⊢
    have setting : CleanSetting listing addressing composer template :=
      ⟨clean, linkless, rfl, plainly, distinct⟩
    have expands := @runWithin_expands _ _ composer _ setting wrapless
      { maxRuns := maxRuns, markRegions := false } rfl _ _ _ _ _ composed
    simpa using expands
  · cases composed

end Expanding

/-- A file that includes itself, within a frame. -/
def echoFiles : Listing :=
  ⟨[(⟨"/site/echo.html".toList⟩, "<!-- wrap:/frame -->a<!-- file:/echo -->".toList),
    (⟨"/site/frame.html".toList⟩, "<p><!-- content:main --></p>".toList)]⟩

set_option maxRecDepth 100000 in
theorem Composer.composeWith_expands_self_inclusion :
    let composer : Composer :=
      { site := echoFiles.toSite (.atRoot ⟨"/site".toList⟩), kinds := [.file, .layout] }
    let template : Path := ⟨"/site/index.html".toList⟩
    let text := "<!-- file:/echo -->".toList
    composer.expand template 2 text = .ok "<p>a<p>a<!-- file:/echo --></p></p>".toList ∧
      ((2 : Nat) : ℕ∞) = min ((2 : Nat) : ℕ∞) (composer.height template text) ∧
      (false = true ↔ composer.height template text ≤ (2 : Nat)) := by
  have clean : CleanSite echoFiles (.atRoot ⟨"/site".toList⟩) := by decide +kernel
  have linkless : NoForgedLink (echoFiles.toSite (.atRoot ⟨"/site".toList⟩)) := by
    apply clean.noForgedLink_of_dotless
    decide +kernel
  have distinct : [Kind.file, Kind.layout].Nodup := by decide
  have wrapless : Kind.wrap ∉ [Kind.file, Kind.layout] := by decide
  have plainly : Plainly (Path.mk "/site/index.html".toList).text := by decide +kernel
  have cleanText : Clean "<!-- file:/echo -->".toList := by decide +kernel
  apply @composeWith_expands _ _ clean linkless _ distinct wrapless _ plainly _ cleanText 2
    ⟨"<p>a<p>a<!-- file:/echo --></p></p>".toList, ⟨"/site/index.html".toList⟩, {}, 2, false⟩
  decide +kernel

/-- The forged link leaves an opening that only what stands behind the file
closes. -/
def forgedOpening : Text := "<!-- file:/f --> -->".toList

/-- So there is a tag to resolve in the second run that stands in no text that
was put in. -/
def forgedComposition : Composition where
  content := "\"a<div style=\"background-color: #f08080\">".toList ++
    "Could not process file:/c\"</div>".toList
  template := ⟨"/site/index.html".toList⟩
  includes := {}
  runs := 2
  converged := true

set_option maxRecDepth 100000 in
theorem Composer.composeWith_joins_forged_opening :
    CleanSite forgingFiles (.atRoot ⟨"/site".toList⟩) ∧ Clean forgedOpening ∧
      Plainly "/site/index.html".toList ∧ forgingComposer.kinds = [.file] ∧
      forgingComposer.composeWith ⟨"/site/index.html".toList⟩ forgedOpening
        { maxRuns := 2, markRegions := false } = .ok forgedComposition ∧
      forgingComposer.expand ⟨"/site/index.html".toList⟩ 2 forgedOpening =
        .error (.unterminated "<!-- file:/c\"".toList ⟨"/site/index.html".toList⟩) ∧
      forgingComposer.height ⟨"/site/index.html".toList⟩ forgedOpening = 1 := by
  have scanned : forgingComposer.scan ⟨"/site/index.html".toList⟩ forgedOpening =
      .ok [forgedTag] := by decide +kernel
  have put : forgingComposer.unmarked ⟨"/site/index.html".toList⟩ forgedTag =
      .ok "\"a<!-- file:/c\"".toList := by decide +kernel
  have unclosed : forgingComposer.scan ⟨"/site/index.html".toList⟩ "\"a<!-- file:/c\"".toList =
      .error (.unterminated "<!-- file:/c\"".toList ⟨"/site/index.html".toList⟩) := by
    decide +kernel
  have level : forgingComposer.height ⟨"/site/index.html".toList⟩ forgedOpening = 1 := by
    rw [height_eq scanned, List.map_singleton, heightBehind, put]
    dsimp only
    rw [height_of_error unclosed]
    rfl
  refine ⟨?_, ?_, ?_, rfl, ?_, ?_, level⟩
  all_goals decide +kernel

end PageComposer
