import PageComposer.Proofs.Run.Inertness
import PageComposer.Proofs.Run.Pieces

namespace PageComposer

/-!
# Composing a composed page again

A converged page has no tag left, so composing it again makes no run: all that can
change it is that it is read as a document once more.  It stays the same page exactly
when reading it changes nothing.

The page is put together from texts that were read as documents, but also from
quoted arguments, from wrappers of slots as they are stored, and from names, and
where two of them meet a link or an attribute can arise that neither of them holds.
If all that enters is inert, every document on the way is
(`Composer.Reaches.inert`), and the page is composed to itself
(`Composer.composeWith_again`).
-/

namespace Composer

variable {composer : Composer} {template : Path} {options : Options}

/-- The documents that the runs of a composition start from and end with. -/
inductive Reaches (composer : Composer) (template : Path) (options : Options) (start : Text) :
    Text -> Prop
  | start : Reaches composer template options start start
  | run {document next : Text} {first : Placeholder} {others : List Placeholder}
      {includes after : Includes} (reached : Reaches composer template options start document)
      (scanned : composer.scan template document = .ok (first :: others))
      (finished : composer.run template options document (first :: others) includes =
        .ok (next, after)) :
      Reaches composer template options start next

/-- Every tag that a composition meets brings inert texts in. -/
def InertTags (composer : Composer) (template : Path) (options : Options) (start : Text) : Prop :=
  ∀ document placeholders, Reaches composer template options start document ->
    composer.scan template document = .ok placeholders ->
    ∀ placeholder ∈ placeholders, placeholder.kind.isLink = false ->
      InertTag composer options placeholder

/-! ## A run keeps a document inert -/

section OneRun

variable {document : Text} {placeholders : List Placeholder}

theorem tagShaped_of_scan (scanned : composer.scan template document = .ok placeholders) :
    ∀ placeholder ∈ placeholders, TagShaped placeholder.tag := by
  intro placeholder member
  rcases mem_scanKind_of_scan scanned member with ⟨kind, _, found, read, within⟩
  exact tagShaped_of_scanKind read placeholder within

/-- A document with inert texts in all of its spans at once. -/
theorem inert_substitute (scanned : composer.scan template document = .ok placeholders)
    (laid : Laid 0 placeholders document)
    (tags : ∀ placeholder ∈ placeholders, placeholder.kind.isLink = false ->
      InertTag composer options placeholder)
    (inert : Inert document) {resolved : List (Placeholder × Resolution)}
    (all : composer.resolveAll template placeholders = .ok resolved) :
    Inert (substitute (shownSpans options resolved) document) := by
  rcases resolveAll_eq_ok_iff.mp all with ⟨same, each⟩
  apply inert.substituteFrom
  · rw [shownSpans_placeholders, same]
    exact laid.filter _
  · intro span member
    rcases List.mem_map.mp member with ⟨found, kept, equal⟩
    rcases List.mem_filter.mp kept with ⟨within, other⟩
    have standing : found.1 ∈ placeholders := same ▸ List.mem_map_of_mem within
    subst equal
    exact ⟨tagShaped_of_scan scanned found.1 standing,
      inert_shown (tags found.1 standing) (bne_iff_ne.mp other) (each found within)⟩

/-- A wrap around an inert document leaves it inert. -/
theorem inert_of_wrapApplied {wrap : Placeholder} {front back result : Text} {start : Nat}
    (unplaced : Unplaced composer.site.locate) (tag : InertTag composer options wrap)
    (inertFront : Inert front) (inertBack : Inert back)
    (applied : WrapApplied composer.site (wrap.placed start) front back result) :
    Inert result := by
  cases applied with
  | @wrapped wrapper contents before after slot located read main =>
      rw [unplaced wrap start] at located
      have around := main.inert_around (tag.fragment wrapper contents located read).trim
      exact (around.1.append (inertFront.append inertBack)).append around.2
  | unresolved _ _ =>
      exact (inertFront.append (inert_unprocessedBlock tag.label)).append inertBack

theorem inert_run (unplaced : Unplaced composer.site.locate)
    (scanned : composer.scan template document = .ok placeholders)
    (tags : ∀ placeholder ∈ placeholders, placeholder.kind.isLink = false ->
      InertTag composer options placeholder)
    (inert : Inert document) {includes after : Includes} {result : Text}
    (finished : composer.run template options document placeholders includes =
      .ok (result, after)) : Inert result := by
  rcases exists_substituted_of_run scanned finished with ⟨resolved, all, laid, wrapless, wrapped⟩
  have substituted := inert_substitute scanned laid tags inert all
  cases last? : lastWrap? placeholders with
  | none =>
      rw [wrapless last?]
      exact substituted
  | some wrap =>
      rcases exists_split_of_lastWrap? last? with ⟨earlier, later, split, isWrap, _⟩
      have member : wrap ∈ placeholders := by
        rw [split]
        exact List.mem_append_right _ List.mem_cons_self
      rcases wrapped wrap last? with ⟨front, back, delimited, applied⟩
      rw [delimited] at substituted
      have around := substituted.around_tag (tagShaped_of_scan scanned wrap member)
      have tag := tags wrap member (by rw [isWrap]; rfl)
      exact inert_of_wrapApplied unplaced tag around.1 around.2 applied

end OneRun

/-! ## All runs -/

section AllRuns

variable {start document : Text} {remaining runs : Nat} {includes : Includes}
  {composition : Composition}

theorem Reaches.inert (unplaced : Unplaced composer.site.locate) (inert : Inert start)
    (tags : InertTags composer template options start)
    (reached : Reaches composer template options start document) : Inert document := by
  induction reached with
  | start => exact inert
  | @run document next first others includes after reached scanned finished inductionHypothesis =>
      exact inert_run unplaced scanned (tags document _ reached scanned) inductionHypothesis
        finished

/-- A composition holds a document that its runs lead to.  If it has converged, the
document has no tag, and without a run it is the one that the runs start from. -/
theorem runWithin_outcome (reached : Reaches composer template options start document)
    (composed : composer.runWithin template options remaining runs document includes =
      .ok composition) :
    Reaches composer template options start composition.content ∧
      runs ≤ composition.runs ∧
      (composition.converged = true ->
        composer.scan template composition.content = .ok [] ∧
        (composition.runs = runs -> composition.content = document)) := by
  induction remaining generalizing runs document includes with
  | zero =>
      rcases exists_scan_of_runWithin composed with ⟨placeholders, scanned⟩
      cases placeholders with
      | nil =>
          rw [runWithin_of_no_tag scanned] at composed
          cases composed
          exact ⟨reached, Nat.le_refl _, fun _ => ⟨scanned, fun _ => rfl⟩⟩
      | cons first others =>
          rw [runWithin_zero_of_tags scanned] at composed
          cases composed
          exact ⟨reached, Nat.le_refl _, fun impossible => by cases impossible⟩
  | succ fewer inductionHypothesis =>
      rcases exists_scan_of_runWithin composed with ⟨placeholders, scanned⟩
      cases placeholders with
      | nil =>
          rw [runWithin_of_no_tag scanned] at composed
          cases composed
          exact ⟨reached, Nat.le_refl _, fun _ => ⟨scanned, fun _ => rfl⟩⟩
      | cons first others =>
          rw [runWithin_succ_of_tags scanned] at composed
          rcases bind_eq_ok_iff.mp composed with ⟨⟨next, after⟩, finished, continued⟩
          rcases inductionHypothesis (reached.run scanned finished) continued with
            ⟨final, more, settled⟩
          refine ⟨final, by omega, fun converged => ?_⟩
          refine ⟨(settled converged).1, fun equal => ?_⟩
          omega

end AllRuns

/-! ## Composing again -/

/-- A document without tags is composed to itself exactly when reading it changes
nothing. -/
theorem composeWith_eq_self_iff {content : Text} (markup : template.extension? = some "html".toList)
    (scanned : composer.scan template content = .ok []) :
    composer.composeWith template content options = .ok ⟨content, template, {}, 0, true⟩ ↔
      resolveLinks composer.site template (prepareEditable composer.site template content) =
        content := by
  unfold composeWith
  rw [if_pos markup]
  dsimp only
  constructor
  · intro composed
    have outcome := (runWithin_outcome .start composed).2.2 rfl
    exact (outcome.2 rfl).symm
  · intro unchanged
    rw [unchanged]
    exact runWithin_of_no_tag scanned

/-- A converged page is composed to itself, without a run and with nothing included,
exactly when reading it as a document changes nothing.  That is so whenever the
template, read as a document, and all that the tags bring in is inert. -/
theorem composeWith_again {listing : Listing} {addressing : Addressing}
    (sited : composer.site = listing.toSite addressing) {text : Text} {composition : Composition}
    (composed : composer.composeWith template text options = .ok composition)
    (converged : composition.converged = true) :
    let again := composer.composeWith template composition.content options
    let itself : Composition := ⟨composition.content, template, {}, 0, true⟩
    let read (document : Text) : Text :=
      resolveLinks composer.site template (prepareEditable composer.site template document)
    (again = .ok itself ↔ read composition.content = composition.content) ∧
      (Inert (read text) -> InertTags composer template options (read text) ->
        again = .ok itself) := by
  intro again itself read
  have unplaced : Unplaced composer.site.locate := by
    intro placeholder start
    rw [sited]
    rfl
  by_cases markup : template.extension? = some "html".toList
  · unfold composeWith at composed
    rw [if_pos markup] at composed
    rcases runWithin_outcome .start composed with ⟨reached, _, settled⟩
    have unchanged := @composeWith_eq_self_iff composer template options _ markup
      (settled converged).1
    refine ⟨unchanged, fun inert tags => unchanged.mpr ?_⟩
    exact (reached.inert unplaced inert tags).resolveLinks_prepareEditable _ _
  · unfold composeWith at composed
    rw [if_neg markup] at composed
    cases composed

/-- A layout with an editable element and a relative link.  Its slot has a wrapper. -/
def boxedFiles : Listing :=
  ⟨[(⟨"/site/layout.html".toList⟩,
      "<main data-editable><a href=\"ps:./a\">a</a><!-- content:text(wrap=/box) --></main>".toList),
    (⟨"/site/box.html".toList⟩, "<p><!-- content:main --></p>".toList)]⟩

def boxedComposer : Composer where
  site := boxedFiles.toSite (.atRoot ⟨"/site".toList⟩)

def boxedTemplate : Text := "<h1 data-editable>h</h1><!-- layout:/layout('b') -->".toList

/-- The template as it is read. -/
def boxedStart : Text :=
  "<h1 data-editable=\"index\" contenteditable=\"true\" >h</h1>".toList ++
    "<!-- layout:/layout('b') -->".toList

/-- The layout as it is read. -/
def boxedLayout : Text :=
  "<main data-editable=\"layout\" contenteditable=\"true\" ><a href=\"a\">a</a>".toList ++
    "<!-- content:text(wrap=/box) --></main>".toList

def boxedPage : Text :=
  "<h1 data-editable=\"index\" contenteditable=\"true\" >h</h1>".toList ++
    "<main data-editable=\"layout\" contenteditable=\"true\" ><a href=\"a\">a</a>".toList ++
    "<p>b</p></main>".toList

/-- The tag of the template. -/
def layoutTag : Placeholder where
  name := "/layout".toList
  kind := .layout
  start := 56
  stop := 84
  tag := "<!-- layout:/layout('b') -->".toList
  args := ["'b'".toList]
  style := .call
  document := ⟨"/site/index.html".toList⟩

/-- The slot of the layout. -/
def boxedSlot : Placeholder where
  name := "text".toList
  kind := .content
  start := 70
  stop := 102
  tag := "<!-- content:text(wrap=/box) -->".toList
  args := ["wrap=/box".toList]
  style := .call
  document := ⟨"/site/layout.html".toList⟩

theorem locate_layoutTag :
    boxedComposer.site.locate layoutTag = .ok ⟨"/site/layout.html".toList⟩ := by
  decide +kernel

set_option maxRecDepth 100000 in
theorem readFragment_boxedLayout :
    readFragment boxedComposer.site ⟨"/site/layout.html".toList⟩ = .ok boxedLayout := by
  decide +kernel

set_option maxRecDepth 100000 in
theorem inertFilling_layoutTag : InertFilling boxedComposer layoutTag := by
  constructor
  · intro value markup binds bound
    have literal : boxedComposer.bindValues "'b'".toList = .ok "b".toList := by decide +kernel
    have positional : layoutTag.args.filterMap (Text.cutAtChar? '=') = [] := by decide +kernel
    rcases binds with positioned | ⟨key, named⟩
    · rw [List.mem_singleton.mp positioned, literal] at bound
      cases bound
      decide
    · rw [positional] at named
      cases named
  · intro path contents slots slot wrapper found stored scanned member named
    rw [locate_layoutTag] at found
    cases found
    rw [readFragment_boxedLayout] at stored
    cases stored
    have slotScanned : scanKind boxedComposer.site ⟨"/site/layout.html".toList⟩ .content
        (Text.trim boxedLayout) = .ok [boxedSlot] := by decide +kernel
    rw [slotScanned] at scanned
    cases scanned
    rw [List.mem_singleton.mp member] at named ⊢
    have wrapperName : boxedSlot.wrapperName? = some "/box".toList := by decide +kernel
    rw [wrapperName] at named
    cases named
    constructor
    · decide +kernel
    · intro path text found stored
      have boxed : boxedComposer.site.locate (boxedSlot.slotWrapper "/box".toList) =
          .ok ⟨"/site/box.html".toList⟩ := by decide +kernel
      have box : boxedComposer.site.read ⟨"/site/box.html".toList⟩ =
          .ok "<p><!-- content:main --></p>".toList := by decide +kernel
      rw [boxed] at found
      cases found
      rw [box] at stored
      cases stored
      decide +kernel

set_option maxRecDepth 100000 in
theorem inertTags_boxedStart :
    InertTags boxedComposer ⟨"/site/index.html".toList⟩ {} boxedStart := by
  have scannedStart : boxedComposer.scan ⟨"/site/index.html".toList⟩ boxedStart =
      .ok [layoutTag] := by decide +kernel
  have scannedPage : boxedComposer.scan ⟨"/site/index.html".toList⟩ boxedPage = .ok [] := by
    decide +kernel
  have progressed : boxedComposer.progress ⟨"/site/index.html".toList⟩ {} boxedStart [layoutTag] =
      .ok { text := boxedPage } := by decide +kernel
  have reaches (document : Text)
      (reached : Reaches boxedComposer ⟨"/site/index.html".toList⟩ {} boxedStart document) :
      document = boxedStart ∨ document = boxedPage := by
    induction reached with
    | start => exact Or.inl rfl
    | @run document next first others includes after _ scanned finished inductionHypothesis =>
        rcases inductionHypothesis with isStart | isPage
        · rw [isStart, scannedStart] at scanned
          cases scanned
          rw [isStart, run_eq_progress (by decide) (by decide), progressed] at finished
          cases finished
          exact Or.inr rfl
        · rw [isPage, scannedPage] at scanned
          cases scanned
  intro document placeholders reached scanned placeholder member _
  rcases reaches document reached with isStart | isPage
  · rw [isStart, scannedStart] at scanned
    cases scanned
    rw [List.mem_singleton.mp member]
    refine ⟨by decide +kernel, ?_, ?_, fun _ => inertFilling_layoutTag⟩
    · intro marked
      cases marked
    · intro path contents found stored
      rw [locate_layoutTag] at found
      cases found
      rw [readFragment_boxedLayout] at stored
      cases stored
      decide +kernel
  · rw [isPage, scannedPage] at scanned
    cases scanned
    cases member

set_option maxRecDepth 100000 in
/-- The attributes and the link of the template and of the layout are rewritten once,
and the page is composed to itself. -/
theorem composeWith_again_boxed :
    let template : Path := ⟨"/site/index.html".toList⟩
    let read := resolveLinks boxedComposer.site template
      (prepareEditable boxedComposer.site template boxedTemplate)
    boxedComposer.composeWith template boxedTemplate {} =
        .ok ⟨boxedPage, template, {}, 1, true⟩ ∧
      Inert read ∧ InertTags boxedComposer template {} read ∧
      boxedComposer.composeWith template boxedPage {} = .ok ⟨boxedPage, template, {}, 0, true⟩ := by
  intro template read
  have composed : boxedComposer.composeWith template boxedTemplate {} =
      .ok ⟨boxedPage, template, {}, 1, true⟩ := by decide +kernel
  have readStart : read = boxedStart := by decide +kernel
  have inert : Inert read := by
    rw [readStart]
    decide +kernel
  have tags : InertTags boxedComposer template {} read := by
    rw [readStart]
    exact inertTags_boxedStart
  have again := composeWith_again rfl composed rfl
  exact ⟨composed, inert, tags, again.2 inert tags⟩

/-- A layout whose slot has a wrapper with an attribute to be completed. -/
def rawFiles : Listing :=
  ⟨[(⟨"/site/layout.html".toList⟩, "<!-- content:text(wrap=/box) -->".toList),
    (⟨"/site/box.html".toList⟩, "<p data-editable><!-- content:main --></p>".toList)]⟩

def rawComposer : Composer where
  site := rawFiles.toSite (.atRoot ⟨"/site".toList⟩)

set_option maxRecDepth 100000 in
/-- The wrapper of a slot is put in as it is stored, so its attribute is completed only
when the page is composed again, and with a reference to the page. -/
theorem composeWith_again_completes_wrapper :
    let template : Path := ⟨"/site/index.html".toList⟩
    let page := "<p data-editable></p>".toList
    rawComposer.composeWith template "<!-- layout:/layout -->".toList {} =
        .ok ⟨page, template, {}, 1, true⟩ ∧
      rawComposer.composeWith template page {} =
        .ok ⟨"<p data-editable=\"index\" contenteditable=\"true\" ></p>".toList, template, {}, 0,
          true⟩ ∧
      rawComposer.composeWith template page {} ≠ .ok ⟨page, template, {}, 0, true⟩ := by
  decide +kernel

end Composer
end PageComposer
