import PageComposer.Proofs.Attributes.Passes
import PageComposer.Proofs.Fragment.Chain
import PageComposer.Proofs.Fragment.Slot

namespace PageComposer

/-!
# The layers of a wrapped fragment

A fragment that is wrapped consists of its own text and of what its wrapper puts around it.
Its links are resolved last, when both are one text already.  The links of the wrapper are
resolved by then, against the wrapper, and the pass over the whole must leave them alone.

It does so if no mark is left in them and none arises where the layers meet
(`Layer.IsClear`).  Then only the own text of the fragment is resolved against the fragment
(`Layer.text_eq`), and the same holds for the wrapper and its own wrapper, as far as the
chain goes (`layered_of_readFragment`).
-/

/-- A fragment that is wrapped, taken apart at the tag of its first wrap, and its wrapper,
taken apart at its main slot. -/
structure Layer (site : Site) (path : Path) where
  wrap : Placeholder
  front : Text
  back : Text
  wrapper : Path
  /-- What the wrapper is read as. -/
  contents : Text
  slot : Placeholder
  before : Text
  after : Text
  opened : ∃ raw others, site.read path = .ok raw ∧
    prepareEditable site path raw = front ++ wrap.tag ++ back ∧
    scanKind site path .wrap (front ++ wrap.tag ++ back) = .ok (wrap :: others)
  start : wrap.start = Text.byteSize front
  located : site.locate wrap = .ok wrapper
  read : readFragment site wrapper = .ok contents
  main : MainSlot site wrapper (Text.trim contents) slot before after

namespace Layer

variable {site : Site} {path : Path}

/-- The text of the fragment without the tag of its wrap. -/
def own (layer : Layer site path) : Text :=
  layer.front ++ layer.back

/-- Nothing in the wrapper looks like a marked link, and neither do the seams between it and
the own text of the fragment. -/
structure IsClear (layer : Layer site path) : Prop where
  before_unmarked : ¬ linkMark <:+: layer.before
  after_unmarked : ¬ linkMark <:+: layer.after
  before_clear : Text.EndsClear linkMark layer.before
  own_clear : Text.EndsClear linkMark layer.own
  own_closed : ∀ rest, linkMark ++ rest <:+ layer.own -> '"' ∈ rest

theorem wrapperOf? (layer : Layer site path) : site.wrapperOf? path = some layer.wrapper := by
  rcases layer.opened with ⟨raw, others, read, prepared, scanned⟩
  exact Site.wrapperOf?_eq_some_iff.mpr
    ⟨raw, layer.wrap, others, read, prepared ▸ scanned, layer.located⟩

end Layer

theorem MainSlot.found {site : Site} {wrapper : Path} {text : Text} {slot : Placeholder}
    {before after : Text} (main : MainSlot site wrapper text slot before after) :
    findMainSlot site wrapper text = .ok slot := by
  rcases main.only with ⟨slots, scanned, only⟩
  refine bind_eq_ok_iff.mpr ⟨slots, scanned, ?_⟩
  rw [only]
  rfl

theorem MainSlot.unique {site : Site} {wrapper : Path} {text : Text} {slot other : Placeholder}
    {before after before' after' : Text} (main : MainSlot site wrapper text slot before after)
    (again : MainSlot site wrapper text other before' after') :
    slot = other ∧ before = before' ∧ after = after' := by
  have same : slot = other := Except.ok.inj (main.found.symm.trans again.found)
  subst same
  have joined := main.around.symm.trans again.around
  rw [List.append_assoc, List.append_assoc] at joined
  have parts := Text.append_inj_of_byteSize joined (main.start.symm.trans again.start)
  exact ⟨rfl, parts.1, List.append_cancel_left parts.2⟩

section Applying

variable {site : Site} {enter : Path -> Except Failure Text} {wrapping : List Path}

/-- A wrapper that can be read on its own is entered with that text, and the document goes
into its main slot. -/
theorem exists_slot_of_applyWrapWith {wrap : Placeholder} {wrapper : Path}
    {contents document result : Text} (located : site.locate wrap = .ok wrapper)
    (read : readFragment site wrapper = .ok contents)
    (entered : Settled (enter wrapper) -> readFragment site wrapper = enter wrapper)
    (applied : applyWrapWith site enter wrapping wrap document = .ok result) :
    enter wrapper = .ok contents ∧
      ∃ slot, findMainSlot site wrapper (Text.trim contents) = .ok slot ∧
        result = slot.replaceIn (Text.trim contents) (wrap.replaceIn document []) := by
  unfold applyWrapWith at applied
  rw [located] at applied
  dsimp only at applied
  split at applied
  · cases applied
  · cases inside : enter wrapper with
    | error failure =>
        rw [inside] at applied entered
        dsimp only at applied
        split at applied
        · rename_i lost
          have impossible := entered fun other equal => by
            cases equal
            exact lost
          rw [read] at impossible
          cases impossible
        · cases applied
    | ok text =>
        rw [inside] at applied entered
        have same := Except.ok.inj (read.symm.trans (entered (settled_ok text)))
        subst same
        rcases bind_eq_ok_iff.mp applied with ⟨slot, found, equal⟩
        exact ⟨rfl, slot, found, (Except.ok.inj equal).symm⟩

theorem readFragment_of_enterWithin {depth : Nat} {wrapper : Path}
    (deep : depth ≤ site.fileCount) (settled : Settled (enterWithin site depth wrapping wrapper)) :
    readFragment site wrapper = enterWithin site depth wrapping wrapper := by
  cases depth with
  | zero => exact absurd (settled _ rfl) Bool.false_ne_true
  | succ below => exact readFragment_of_within (Nat.le_of_succ_le deep) settled

end Applying

section Assembling

variable {site : Site} {path : Path}

theorem assembleWith_of_wrapped {raw : Text} {wrap : Placeholder} {others : List Placeholder}
    (read : site.read path = .ok raw)
    (scanned : scanKind site path .wrap (prepareEditable site path raw) = .ok (wrap :: others))
    (enter : Path -> Except Failure Text) (wrapping : List Path) :
    assembleWith site enter wrapping path =
      applyWrapWith site enter wrapping wrap (prepareEditable site path raw) := by
  unfold assembleWith
  rw [read]
  change (scanKind site path .wrap (prepareEditable site path raw) >>= _) = _
  rw [scanned]
  rfl

theorem Layer.assembleWith_eq (layer : Layer site path) (enter : Path -> Except Failure Text)
    (wrapping : List Path) :
    assembleWith site enter wrapping path =
      applyWrapWith site enter wrapping layer.wrap
        (layer.front ++ layer.wrap.tag ++ layer.back) := by
  rcases layer.opened with ⟨raw, others, read, prepared, scanned⟩
  rw [← prepared] at scanned ⊢
  exact assembleWith_of_wrapped read scanned enter wrapping

theorem Layer.replaceIn (layer : Layer site path) :
    layer.wrap.replaceIn (layer.front ++ layer.wrap.tag ++ layer.back) [] = layer.own := by
  rcases layer.opened with ⟨raw, others, read, prepared, scanned⟩
  rcases (scanKindFrom_laid scanned).stands layer.wrap List.mem_cons_self with
    ⟨front, back, joined, starts, stops⟩
  rw [Placeholder.replaceIn_append layer.start (layer.start ▸ stops), List.append_nil]
  rfl

/-- What a fragment is read as, whatever else is being read. -/
theorem Layer.readWithin_eq (layer : Layer site path) {depth : Nat} {wrapping : List Path}
    {text : Text} (deep : depth ≤ site.fileCount)
    (read : readFragmentWithin site depth wrapping path = .ok text) :
    enterWithin site depth wrapping layer.wrapper = .ok layer.contents ∧
      text = resolveLinks site path (layer.before ++ layer.own ++ layer.after) := by
  rw [readFragmentWithin_eq] at read
  rcases map_eq_ok_iff.mp read with ⟨assembled, applied, resolved⟩
  rw [layer.assembleWith_eq] at applied
  rcases exists_slot_of_applyWrapWith layer.located layer.read
    (readFragment_of_enterWithin deep) applied with ⟨entered, slot, found, equal⟩
  have same := Except.ok.inj (found.symm.trans layer.main.found)
  subst same
  rw [layer.main.replaceIn, layer.replaceIn] at equal
  exact ⟨entered, by rw [← resolved, equal]⟩

/-- The links of a clear layer are resolved in its own text only. -/
theorem Layer.text_eq (layer : Layer site path) (clear : layer.IsClear) {text : Text}
    (read : readFragment site path = .ok text) :
    text = layer.before ++ resolveLinks site path layer.own ++ layer.after := by
  have quiet := Text.quiet_of_endsClear clear.before_unmarked clear.before_clear
  have closed := sealed_of_closed clear.own_closed clear.own_clear
  rw [(layer.readWithin_eq (Nat.le_refl _) read).2, List.append_assoc,
    resolveLinks_quiet_append quiet, resolveLinks_sealed_append closed clear.after_unmarked,
    List.append_assoc]

/-- A fragment can be taken apart if it and its wrapper can be read. -/
theorem exists_layer {wrapper : Path} {contents text : Text}
    (leads : site.wrapperOf? path = some wrapper)
    (wrapperRead : readFragment site wrapper = .ok contents)
    (read : readFragment site path = .ok text) : Nonempty (Layer site path) := by
  rcases Site.wrapperOf?_eq_some_iff.mp leads with ⟨raw, wrap, others, rawRead, scanned, located⟩
  rcases (scanKindFrom_laid scanned).stands wrap List.mem_cons_self with
    ⟨front, back, prepared, starts, stops⟩
  rw [readFragment_eq] at read
  rcases map_eq_ok_iff.mp read with ⟨assembled, applied, _⟩
  rw [assemble, assembleWith_of_wrapped rawRead scanned] at applied
  rcases exists_slot_of_applyWrapWith located wrapperRead
    (readFragment_of_enterWithin (Nat.le_refl _)) applied with ⟨_, slot, found, _⟩
  rcases exists_mainSlot found with ⟨before, after, main⟩
  exact ⟨{ wrap, front, back, wrapper, contents, slot, before, after
           opened := ⟨raw, others, rawRead, prepared, prepared ▸ scanned⟩
           start := by rw [starts, Nat.zero_add]
           located := located
           read := wrapperRead
           main := main }⟩

/-- There is one way to take a fragment apart. -/
instance : Subsingleton (Layer site path) := by
  refine ⟨fun layer other => ?_⟩
  rcases layer with ⟨wrap, front, back, wrapper, contents, slot, before, after, opened, start,
    located, read, main⟩
  rcases other with ⟨wrap', front', back', wrapper', contents', slot', before', after', opened',
    start', located', read', main'⟩
  rcases opened with ⟨raw, others, rawRead, prepared, scanned⟩
  rcases opened' with ⟨raw', others', rawRead', prepared', scanned'⟩
  have sameRaw := Except.ok.inj (rawRead.symm.trans rawRead')
  subst sameRaw
  have joined := prepared.symm.trans prepared'
  rw [joined] at scanned
  have sameWrap := (List.cons.inj (Except.ok.inj (scanned.symm.trans scanned'))).1
  subst sameWrap
  rw [List.append_assoc, List.append_assoc] at joined
  have parts := Text.append_inj_of_byteSize joined (start.symm.trans start')
  have sameBack := List.append_cancel_left parts.2
  have sameWrapper := Except.ok.inj (located.symm.trans located')
  subst sameWrapper
  have sameContents := Except.ok.inj (read.symm.trans read')
  subst sameContents
  rcases main.unique main' with ⟨sameSlot, sameBefore, sameAfter⟩
  rw [Layer.mk.injEq]
  exact ⟨rfl, parts.1, sameBack, rfl, rfl, sameSlot, sameBefore, sameAfter⟩

end Assembling

/-! ## A chain of layers -/

/-- A text that is put together from the files of a chain of wrappers, each of which has its
links resolved against itself. -/
inductive Layered (site : Site) : Path -> Text -> Prop
  | outermost {path : Path} {own : Text} (assembled : assemble site path = .ok own)
      (unwrapped : ¬ Nonempty (Layer site path)) :
      Layered site path (resolveLinks site path own)
  | within {path : Path} (layer : Layer site path)
      (around : Layered site layer.wrapper layer.contents) :
      Layered site path (layer.before ++ resolveLinks site path layer.own ++ layer.after)

/-- Every file of the chain of wrappers that can be taken apart is clear. -/
def Site.ClearlyWrapped (site : Site) (path : Path) : Prop :=
  ∀ steps file, site.wrapperAfter? steps path = some file ->
    ∀ layer : Layer site file, layer.IsClear

section Chain

variable {site : Site} {path wrapper : Path}

theorem Site.wrapperAfter?_succ (leads : site.wrapperOf? path = some wrapper) (steps : Nat) :
    site.wrapperAfter? (steps + 1) path = site.wrapperAfter? steps wrapper := by
  induction steps with
  | zero => exact leads
  | succ former inductionHypothesis =>
      rw [wrapperAfter?, inductionHypothesis]
      rfl

theorem Site.ClearlyWrapped.further (clear : site.ClearlyWrapped path)
    (leads : site.wrapperOf? path = some wrapper) : site.ClearlyWrapped wrapper :=
  fun steps file reached => clear (steps + 1) file ((wrapperAfter?_succ leads steps).trans reached)

theorem Site.ClearlyWrapped.of_unwrapped (unwrapped : site.wrapperOf? path = none) :
    site.ClearlyWrapped path := by
  intro steps file reached layer
  cases steps with
  | zero =>
      cases Option.some.inj reached
      have leads := layer.wrapperOf?
      rw [unwrapped] at leads
      cases leads
  | succ former =>
      have beyond := isSome_wrapperAfter?_of_le (Nat.succ_le_succ (Nat.zero_le former))
        (Option.isSome_iff_exists.mpr ⟨file, reached⟩)
      rw [wrapperAfter?, wrapperAfter?, Option.bind_some, unwrapped] at beyond
      cases beyond

theorem Site.ClearlyWrapped.of_layer {layer : Layer site path} (clear : layer.IsClear)
    (behind : site.ClearlyWrapped layer.wrapper) : site.ClearlyWrapped path := by
  intro steps file reached other
  cases steps with
  | zero =>
      cases Option.some.inj reached
      exact Subsingleton.elim layer other ▸ clear
  | succ former =>
      rw [wrapperAfter?_succ layer.wrapperOf?] at reached
      exact behind former file reached other

/-- A clear fragment is layered if its wrapper is, in case that is entered. -/
theorem layered_of_wrapper {depth : Nat} {wrapping : List Path} {text : Text}
    (deep : depth ≤ site.fileCount)
    (read : readFragmentWithin site depth wrapping path = .ok text)
    (clear : ∀ layer : Layer site path, layer.IsClear)
    (around : ∀ layer : Layer site path,
      enterWithin site depth wrapping layer.wrapper = .ok layer.contents ->
        Layered site layer.wrapper layer.contents) :
    Layered site path text := by
  have alone : readFragment site path = .ok text := by
    rw [readFragment_of_within deep (read ▸ settled_ok text), read]
  by_cases wrapped : Nonempty (Layer site path)
  · rcases wrapped with ⟨layer⟩
    rw [layer.text_eq (clear layer) alone]
    exact .within layer (around layer (layer.readWithin_eq deep read).1)
  · rw [readFragment_eq] at alone
    rcases map_eq_ok_iff.mp alone with ⟨own, assembled, resolved⟩
    exact resolved ▸ .outermost assembled wrapped

/-- What is read along a clear chain is layered, by induction on the wrappers that may still
be entered. -/
theorem layered_of_readFragmentWithin {depth : Nat} {wrapping : List Path} {text : Text}
    (deep : depth ≤ site.fileCount)
    (read : readFragmentWithin site depth wrapping path = .ok text)
    (clear : site.ClearlyWrapped path) : Layered site path text := by
  induction depth generalizing wrapping path text with
  | zero =>
      refine layered_of_wrapper deep read (clear 0 path rfl) fun layer entered => ?_
      cases entered
  | succ below inductionHypothesis =>
      refine layered_of_wrapper deep read (clear 0 path rfl) fun layer entered => ?_
      exact inductionHypothesis (Nat.le_of_succ_le deep) entered (clear.further layer.wrapperOf?)

/-- A fragment that is read is the text that its wrapper puts around it with its own text in
the main slot, of which nothing but the own text is resolved against the fragment, if the
layer is clear.  Where the whole chain of wrappers is clear, each of them is resolved against
itself alone. -/
theorem readFragment_layered {contents text : Text} (leads : site.wrapperOf? path = some wrapper)
    (wrapperRead : readFragment site wrapper = .ok contents)
    (read : readFragment site path = .ok text) :
    Nonempty (Layer site path) ∧
      (∀ layer : Layer site path, layer.wrapper = wrapper ∧ layer.contents = contents ∧
        (layer.IsClear ->
          text = layer.before ++ resolveLinks site path layer.own ++ layer.after)) ∧
      (site.ClearlyWrapped path -> Layered site path text) := by
  refine ⟨exists_layer leads wrapperRead read, fun layer => ?_,
    layered_of_readFragmentWithin (Nat.le_refl _) read⟩
  have sameWrapper := Option.some.inj (layer.wrapperOf?.symm.trans leads)
  subst sameWrapper
  exact ⟨rfl, Except.ok.inj (layer.read.symm.trans wrapperRead),
    fun clear => layer.text_eq clear read⟩

end Chain

/-- A page in a frame that stands in a frame itself. -/
def nestedFiles : Listing := ⟨[
  (⟨"/site/pages/news.html".toList⟩,
    "<!-- wrap:frames/inner --><a href=\"ps:./today\">".toList),
  (⟨"/site/frames/inner.html".toList⟩,
    "<!-- wrap:frames/outer --><i src=\"ps:./i.png\"><!-- content:main --></i>".toList),
  (⟨"/site/frames/outer.html".toList⟩,
    "<b data-editable><!-- content:main --></b>".toList)]⟩

def nestedSite : Site :=
  nestedFiles.toSite (.atRoot ⟨"/site".toList⟩)

/-- The page in the inner frame. -/
def newsLayer : Layer nestedSite ⟨"/site/pages/news.html".toList⟩ :=
  let inner : Path := ⟨"/site/frames/inner.html".toList⟩
  let slot : Placeholder :=
    { Placeholder.detached .content mainSlotName inner with start := 78, stop := 99 }
  { wrap :=
      { Placeholder.detached .wrap "frames/inner".toList ⟨"/site/pages/news.html".toList⟩ with
        stop := 26 }
    front := []
    back := "<a href=\"ps:./today\">".toList
    wrapper := inner
    contents := ("<b data-editable=\"frames/outer\" contenteditable=\"true\" >" ++
      "<i src=\"frames/i.png\"><!-- content:main --></i></b>").toList
    slot := slot
    before := ("<b data-editable=\"frames/outer\" contenteditable=\"true\" >" ++
      "<i src=\"frames/i.png\">").toList
    after := "</i></b>".toList
    opened := ⟨"<!-- wrap:frames/inner --><a href=\"ps:./today\">".toList, [],
      by decide +kernel, by decide +kernel, by decide +kernel⟩
    start := by decide +kernel
    located := by decide +kernel
    read := by decide +kernel
    main := ⟨⟨[slot], by decide +kernel, by decide +kernel⟩, by decide +kernel, by decide +kernel,
      by decide +kernel⟩ }

/-- The inner frame in the outer one. -/
def innerLayer : Layer nestedSite ⟨"/site/frames/inner.html".toList⟩ :=
  let outer : Path := ⟨"/site/frames/outer.html".toList⟩
  let slot : Placeholder :=
    { Placeholder.detached .content mainSlotName outer with start := 56, stop := 77 }
  { wrap :=
      { Placeholder.detached .wrap "frames/outer".toList ⟨"/site/frames/inner.html".toList⟩ with
        stop := 26 }
    front := []
    back := "<i src=\"ps:./i.png\"><!-- content:main --></i>".toList
    wrapper := outer
    contents := ("<b data-editable=\"frames/outer\" contenteditable=\"true\" >" ++
      "<!-- content:main --></b>").toList
    slot := slot
    before := "<b data-editable=\"frames/outer\" contenteditable=\"true\" >".toList
    after := "</b>".toList
    opened := ⟨("<!-- wrap:frames/outer --><i src=\"ps:./i.png\">" ++
      "<!-- content:main --></i>").toList, [],
      by decide +kernel, by decide +kernel, by decide +kernel⟩
    start := by decide +kernel
    located := by decide +kernel
    read := by decide +kernel
    main := ⟨⟨[slot], by decide +kernel, by decide +kernel⟩, by decide +kernel, by decide +kernel,
      by decide +kernel⟩ }

/-- The links of the page and of the inner frame are resolved against different directories,
and neither of them again. -/
theorem readFragment_layered_nested :
    let text := ("<b data-editable=\"frames/outer\" contenteditable=\"true\" >" ++
      "<i src=\"frames/i.png\"><a href=\"pages/today\"></i></b>").toList
    newsLayer.IsClear ∧ innerLayer.IsClear ∧
      text = newsLayer.before ++
        resolveLinks nestedSite ⟨"/site/pages/news.html".toList⟩ newsLayer.own ++
          newsLayer.after ∧
      Layered nestedSite ⟨"/site/pages/news.html".toList⟩ text := by
  intro text
  have newsClear : newsLayer.IsClear :=
    ⟨by decide +kernel, by decide +kernel, by decide +kernel, by decide +kernel,
      closed_of_tails (by decide +kernel)⟩
  have innerClear : innerLayer.IsClear :=
    ⟨by decide +kernel, by decide +kernel, by decide +kernel, by decide +kernel,
      closed_of_tails (by decide +kernel)⟩
  have layered := readFragment_layered newsLayer.wrapperOf? newsLayer.read
    (show readFragment nestedSite ⟨"/site/pages/news.html".toList⟩ = .ok text by decide +kernel)
  have outermost : nestedSite.wrapperOf? innerLayer.wrapper = none := by decide +kernel
  exact ⟨newsClear, innerClear, (layered.2.1 newsLayer).2.2 newsClear,
    layered.2.2 (.of_layer newsClear (.of_layer innerClear (.of_unwrapped outermost)))⟩

end PageComposer
