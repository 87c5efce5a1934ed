import PageComposer.Proofs.Run.Pieces

namespace PageComposer

/-!
# The run limit

`Composer.Runs` says which runs a composition makes, and with which tags each of
them begins; it holds of exactly the compositions that succeed
(`Composer.runWithin_eq_ok_iff`).

The limit is looked at between two runs only, when the tags of the next one are
known.  A lower limit therefore breaks the same runs off earlier: up to there
everything is as it is under the higher limit, and a composition that ends by itself
does not see the limit at all (`Composer.composeWith_cut_off`).
-/

/-- The includes of a composition go on with more of each list. -/
structure Includes.Extends (after before : Includes) : Prop where
  scripts : before.scripts <+: after.scripts
  headScripts : before.headScripts <+: after.headScripts
  styles : before.styles <+: after.styles

namespace Includes.Extends

theorem refl (includes : Includes) : includes.Extends includes :=
  ⟨List.prefix_rfl, List.prefix_rfl, List.prefix_rfl⟩

theorem trans {first second third : Includes} (later : third.Extends second)
    (earlier : second.Extends first) : third.Extends first :=
  ⟨earlier.scripts.trans later.scripts, earlier.headScripts.trans later.headScripts,
    earlier.styles.trans later.styles⟩

end Includes.Extends

/-- What a limit leaves of a composition under a higher one. -/
structure Composition.CutOff (limit : Nat) (whole cut : Composition) : Prop where
  runs : cut.runs = min limit whole.runs
  includes : whole.includes.Extends cut.includes
  settled : whole.runs ≤ limit -> cut = whole
  unsettled : limit < whole.runs -> cut.converged = false

namespace Composer

/-- A composition that has made `runs` runs and may make `remaining` more, with the
tags that each of these begins with. -/
inductive Runs (composer : Composer) (template : Path) (options : Options) :
    Nat -> Nat -> Text -> Includes -> List (List Placeholder) -> Composition -> Prop
  /-- No tag is left. -/
  | converged {remaining runs : Nat} {document : Text} {includes : Includes}
      (scanned : composer.scan template document = .ok []) :
      Runs composer template options remaining runs document includes []
        ⟨document, template, includes, runs, true⟩
  /-- There are tags, but no run is left to resolve them. -/
  | stopped {runs : Nat} {document : Text} {includes : Includes} {first : Placeholder}
      {others : List Placeholder}
      (scanned : composer.scan template document = .ok (first :: others)) :
      Runs composer template options 0 runs document includes []
        ⟨document, template, includes, runs, false⟩
  /-- One run, and then those that it leads to. -/
  | run {remaining runs : Nat} {document next : Text} {includes after : Includes}
      {first : Placeholder} {others : List Placeholder} {rounds : List (List Placeholder)}
      {composition : Composition}
      (scanned : composer.scan template document = .ok (first :: others))
      (finished : composer.run template options document (first :: others) includes =
        .ok (next, after))
      (behind : Runs composer template options remaining (runs + 1) next after rounds
        composition) :
      Runs composer template options (remaining + 1) runs document includes
        ((first :: others) :: rounds) composition

variable {composer : Composer} {template : Path} {options : Options} {document : Text}
  {includes : Includes} {remaining runs : Nat} {composition : Composition}
  {rounds : List (List Placeholder)}

theorem runs_of_runWithin
    (composed : composer.runWithin template options remaining runs document includes =
      .ok composition) :
    ∃ rounds, Runs composer template options remaining runs document includes rounds
      composition := by
  induction remaining generalizing runs document includes with
  | zero =>
      rcases exists_scan_of_runWithin composed with ⟨placeholders, scanned⟩
      cases placeholders with
      | nil =>
          rw [runWithin_of_no_tag scanned] at composed
          cases composed
          exact ⟨[], .converged scanned⟩
      | cons first others =>
          rw [runWithin_zero_of_tags scanned] at composed
          cases composed
          exact ⟨[], .stopped scanned⟩
  | succ fewer inductionHypothesis =>
      rcases exists_scan_of_runWithin composed with ⟨placeholders, scanned⟩
      cases placeholders with
      | nil =>
          rw [runWithin_of_no_tag scanned] at composed
          cases composed
          exact ⟨[], .converged scanned⟩
      | cons first others =>
          rw [runWithin_succ_of_tags scanned] at composed
          rcases bind_eq_ok_iff.mp composed with ⟨⟨next, after⟩, finished, continued⟩
          rcases inductionHypothesis continued with ⟨rounds, behind⟩
          exact ⟨(first :: others) :: rounds, .run scanned finished behind⟩

theorem Runs.runWithin
    (made : Runs composer template options remaining runs document includes rounds composition) :
    composer.runWithin template options remaining runs document includes = .ok composition := by
  induction made with
  | converged scanned => exact runWithin_of_no_tag scanned
  | stopped scanned => exact runWithin_zero_of_tags scanned
  | run scanned finished _ inductionHypothesis =>
      rw [runWithin_succ_of_tags scanned, finished]
      exact inductionHypothesis

/-- The compositions that succeed are those with runs. -/
theorem runWithin_eq_ok_iff :
    composer.runWithin template options remaining runs document includes = .ok composition ↔
      ∃ rounds, Runs composer template options remaining runs document includes rounds
        composition :=
  ⟨runs_of_runWithin, fun ⟨_, made⟩ => made.runWithin⟩

/-! ## What the runs leave -/

/-- A run adds its addresses behind those of the runs before it. -/
theorem extends_of_run {placeholders : List Placeholder} {after : Includes} {result : Text}
    (finished : composer.run template options document placeholders includes =
      .ok (result, after)) : after.Extends includes := by
  rcases bind_eq_ok_iff.mp finished with ⟨_, _, resolving⟩
  rcases bind_eq_ok_iff.mp resolving with ⟨state, _, wrapping⟩
  have added {wrapped : Except Failure Text}
      (ended : wrapped >>= (fun text => .ok (text, { includes with
        styles := includes.styles ++ state.styles
        scripts := includes.scripts ++ state.scripts })) = .ok (result, after)) :
      after.Extends includes := by
    rcases bind_eq_ok_iff.mp ended with ⟨text, _, equal⟩
    cases equal
    exact ⟨List.prefix_append _ _, List.prefix_rfl, List.prefix_append _ _⟩
  cases kept : state.wrap? with
  | none =>
      rw [kept] at wrapping
      exact added wrapping
  | some wrap =>
      rw [kept] at wrapping
      exact added wrapping

namespace Runs

theorem length
    (made : Runs composer template options remaining runs document includes rounds composition) :
    composition.runs = runs + rounds.length ∧ rounds.length ≤ remaining := by
  induction made with
  | converged => exact ⟨rfl, Nat.zero_le _⟩
  | stopped => exact ⟨rfl, Nat.zero_le _⟩
  | run _ _ _ inductionHypothesis =>
      rw [List.length_cons]
      omega

theorem extends_includes
    (made : Runs composer template options remaining runs document includes rounds composition) :
    composition.includes.Extends includes := by
  induction made with
  | converged => exact .refl _
  | stopped => exact .refl _
  | run _ finished _ inductionHypothesis =>
      exact inductionHypothesis.trans (extends_of_run finished)

/-- A composition has converged exactly if its page has no tag. -/
theorem exists_scan
    (made : Runs composer template options remaining runs document includes rounds composition) :
    ∃ left, composer.scan template composition.content = .ok left ∧
      (composition.converged = true ↔ left = []) := by
  induction made with
  | converged scanned => exact ⟨[], scanned, by simp⟩
  | stopped scanned => exact ⟨_, scanned, by simp⟩
  | run _ _ _ inductionHypothesis => exact inductionHypothesis

/-! ## Other limits -/

/-- A run knows nothing of the limit. -/
theorem of_options
    (made : Runs composer template options remaining runs document includes rounds composition)
    (other : Options) (marks : options.markRegions = other.markRegions) :
    Runs composer template other remaining runs document includes rounds composition := by
  have same : composer.step template options = composer.step template other := by
    funext state placeholder
    unfold step
    rw [marks]
  induction made with
  | converged scanned => exact .converged scanned
  | stopped scanned => exact .stopped scanned
  | run scanned finished _ inductionHypothesis =>
      refine .run scanned ?_ inductionHypothesis
      rw [← finished]
      unfold Composer.run
      rw [same]

/-- Under a lower limit the first of the runs are made. -/
theorem exists_cutOff
    (made : Runs composer template options remaining runs document includes rounds composition)
    {fewer : Nat} (le : fewer ≤ remaining) :
    ∃ cut, Runs composer template options fewer runs document includes (rounds.take fewer) cut ∧
      composition.CutOff (runs + fewer) cut := by
  induction made generalizing fewer with
  | converged scanned =>
      rw [List.take_nil]
      refine ⟨_, .converged scanned, ?_, .refl _, fun _ => rfl, ?_⟩
      · exact (Nat.min_eq_right (Nat.le_add_right _ _)).symm
      · exact fun beyond => absurd beyond (Nat.not_lt_of_le (Nat.le_add_right _ _))
  | stopped scanned =>
      cases Nat.le_zero.mp le
      exact ⟨_, .stopped scanned, (Nat.min_self _).symm, .refl _, fun _ => rfl, fun _ => rfl⟩
  | @run remaining runs document next includes after first others rounds composition scanned
      finished behind inductionHypothesis =>
      cases fewer with
      | zero =>
          have more := behind.length.1
          have extended := behind.extends_includes.trans (extends_of_run finished)
          refine ⟨_, .stopped scanned, ?_, extended, fun within => ?_, fun _ => rfl⟩
          · change runs = min runs composition.runs
            omega
          · omega
      | succ fewer =>
          rcases inductionHypothesis (Nat.le_of_succ_le_succ le) with ⟨cut, cutRuns, cutOff⟩
          refine ⟨cut, .run scanned finished cutRuns, ?_⟩
          rwa [Nat.add_assoc, Nat.add_comm 1 fewer] at cutOff

/-- A composition that has converged makes no more runs under a higher limit. -/
theorem of_le
    (made : Runs composer template options remaining runs document includes rounds composition)
    (converged : composition.converged = true) {more : Nat} (le : remaining ≤ more) :
    Runs composer template options more runs document includes rounds composition := by
  induction made generalizing more with
  | converged scanned => exact .converged scanned
  | stopped => cases converged
  | run scanned finished _ inductionHypothesis =>
      rcases Nat.exists_eq_add_of_le' le with ⟨extra, equal⟩
      rw [equal]
      exact .run scanned finished (inductionHypothesis converged (Nat.le_add_left _ _))

end Runs

/-! ## Compositions -/

/-- The document that the runs of a composition start from. -/
def firstDocument (composer : Composer) (template : Path) (text : Text) : Text :=
  resolveLinks composer.site template (prepareEditable composer.site template text)

theorem composeWith_eq_ok_iff {text : Text} :
    composer.composeWith template text options = .ok composition ↔
      template.extension? = some "html".toList ∧
        ∃ rounds, Runs composer template options options.maxRuns 0
          (composer.firstDocument template text) {} rounds composition := by
  unfold composeWith
  by_cases markup : template.extension? = some "html".toList
  · rw [if_pos markup]
    exact runWithin_eq_ok_iff.trans (and_iff_right markup).symm
  · rw [if_neg markup]
    constructor
    · intro impossible
      cases impossible
    · exact fun both => absurd both.1 markup

/-- The limit only breaks the runs off.  What a composition succeeds with under some
limit, it succeeds with under every lower one as far as that goes, and under every
higher one if it has converged.  It never makes more runs than it may, and it has
converged exactly if no tag is left in its page. -/
theorem composeWith_cut_off (composer : Composer) (template : Path) (text : Text) (marked : Bool)
    {fewer more : Nat} (le : fewer ≤ more) :
    (∀ whole, composer.composeWith template text ⟨more, marked⟩ = .ok whole ->
      ∃ cut, composer.composeWith template text ⟨fewer, marked⟩ = .ok cut ∧
        whole.CutOff fewer cut) ∧
    (∀ cut, composer.composeWith template text ⟨fewer, marked⟩ = .ok cut ->
      cut.converged = true -> composer.composeWith template text ⟨more, marked⟩ = .ok cut) ∧
    ∀ limit composition, composer.composeWith template text ⟨limit, marked⟩ = .ok composition ->
      composition.runs ≤ limit ∧
        ∃ left, composer.scan template composition.content = .ok left ∧
          (composition.converged = true ↔ left = []) := by
  refine ⟨fun whole composed => ?_, fun cut composed converged => ?_,
    fun limit composition composed => ?_⟩
  · rcases composeWith_eq_ok_iff.mp composed with ⟨markup, rounds, made⟩
    rcases made.exists_cutOff le with ⟨cut, cutRuns, cutOff⟩
    rw [Nat.zero_add] at cutOff
    exact ⟨cut, composeWith_eq_ok_iff.mpr ⟨markup, _, cutRuns.of_options _ rfl⟩, cutOff⟩
  · rcases composeWith_eq_ok_iff.mp composed with ⟨markup, rounds, made⟩
    exact composeWith_eq_ok_iff.mpr ⟨markup, rounds, (made.of_le converged le).of_options _ rfl⟩
  · rcases composeWith_eq_ok_iff.mp composed with ⟨_, rounds, made⟩
    have counted := made.length
    rw [Nat.zero_add] at counted
    exact ⟨Nat.le_trans (Nat.le_of_eq counted.1) counted.2, made.exists_scan⟩

/-- A part that links a style. -/
def styledFiles : Listing :=
  ⟨[(⟨"/site/part.html".toList⟩, "<!-- linkCss:/part --><p></p>".toList),
    (⟨"/site/part.css".toList⟩, [])]⟩

def styledComposer : Composer where
  site := styledFiles.toSite (.atRoot ⟨"/site".toList⟩)

/-- The page with the part in it, after both of its runs. -/
def styledComposition : Composition where
  content := "<p></p>".toList
  template := ⟨"/site/index.html".toList⟩
  includes := { styles := ["/part.css".toList] }
  runs := 2
  converged := true

set_option maxRecDepth 100000 in
/-- Two runs are cut off behind the first one, and a third one would not be made. -/
theorem composeWith_cut_off_part :
    let template : Path := ⟨"/site/index.html".toList⟩
    let text := "<!-- file:/part -->".toList
    (1 ≤ 2 ∧ styledComposer.composeWith template text ⟨2, false⟩ = .ok styledComposition ∧
      ∃ cut, styledComposer.composeWith template text ⟨1, false⟩ = .ok cut ∧ cut.runs = 1 ∧
        cut.converged = false ∧ ∃ left, styledComposer.scan template cut.content = .ok left ∧
          left ≠ []) ∧
      2 ≤ 3 ∧ styledComposition.converged = true ∧
      styledComposer.composeWith template text ⟨3, false⟩ = .ok styledComposition := by
  intro template text
  have composed : styledComposer.composeWith template text ⟨2, false⟩ =
      .ok styledComposition := by decide +kernel
  rcases composeWith_cut_off styledComposer template text false (show 1 ≤ 2 by decide) with
    ⟨lower, _, settles⟩
  rcases lower _ composed with ⟨cut, cutComposed, cutOff⟩
  rcases (settles 1 cut cutComposed).2 with ⟨left, scanned, converged⟩
  have unsettled := cutOff.unsettled (by decide)
  have more := (composeWith_cut_off styledComposer template text false
    (show 2 ≤ 3 by decide)).2.1 _ composed rfl
  refine ⟨⟨by decide, composed, cut, cutComposed, cutOff.runs, unsettled, left, scanned, ?_⟩,
    by decide, rfl, more⟩
  intro nothing
  rw [converged.mpr nothing] at unsettled
  cases unsettled

end Composer
end PageComposer
