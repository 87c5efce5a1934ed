import PageComposer.Proofs.Fragment.Slot
import PageComposer.Proofs.Markup.Inert
import PageComposer.Proofs.Run.Degradation

namespace PageComposer

/-!
# What replaces a tag is inert

A tag brings texts into a document: the fragment it leads to, the arguments of a
layout, the wrappers that the slots of the layout name, its own name in a block or
a notice, and its definition in the comments of a region.  A wrapper of a slot is
put in as it is stored; nothing has read it as a document before.  When all of
these texts are inert, so is what replaces the tag (`Composer.inert_shown`).  A
link brings nothing in.
-/

/-- Whether a tag of this kind registers a resource and is only taken out. -/
def Kind.isLink : Kind -> Bool
  | .linkCss | .linkScript => true
  | .file | .content | .layout | .wrap => false

theorem tagShaped_of_readTag {site : Site} {document : Path} {kind : Kind} {start : Nat}
    {raw : Text} {placeholder : Placeholder}
    (accepted : readTag site document kind start raw = .ok placeholder) :
    TagShaped placeholder.tag := by
  refine ⟨kind.name ++ [':'] ++ raw, ?_⟩
  rw [(readTag_span accepted).2.2, Kind.opening]
  simp only [List.append_assoc]

theorem tagShaped_of_scanKind {site : Site} {document : Path} {kind : Kind} {text : Text}
    {placeholders : List Placeholder}
    (scanned : scanKind site document kind text = .ok placeholders) :
    ∀ placeholder ∈ placeholders, TagShaped placeholder.tag := by
  intro placeholder member
  rcases scanKindFrom_member scanned placeholder member with ⟨start, raw, _, accepted⟩
  exact tagShaped_of_readTag accepted

theorem MainSlot.inert_around {site : Site} {wrapper : Path} {text : Text} {slot : Placeholder}
    {before after : Text} (main : MainSlot site wrapper text slot before after)
    (inert : Inert text) : Inert before ∧ Inert after := by
  rcases main.exists_scan with ⟨slots, scanned, member⟩
  rw [main.around] at inert
  exact inert.around_tag (tagShaped_of_scanKind scanned slot member)

/-- Inert texts put into the spans of an inert text leave it inert. -/
theorem Inert.substituteFrom {offset : Nat} {replaced : List (Placeholder × Text)} {text : Text}
    (laid : Laid offset (replaced.map Prod.fst) text) (inert : Inert text)
    (each : ∀ span ∈ replaced, TagShaped span.1.tag ∧ Inert span.2) :
    Inert (PageComposer.substituteFrom offset replaced text) := by
  induction replaced generalizing offset text with
  | nil => exact inert
  | cons span others inductionHypothesis =>
      rcases span with ⟨placeholder, replacement⟩
      rw [List.forall_mem_cons] at each
      rw [List.map_cons] at laid
      cases laid with
      | @cons _ _ _ gap rest starts stops behind =>
          have around := inert.around_tag each.1.1
          rw [substituteFrom_cons starts stops]
          exact (around.1.append each.1.2).append
            (inductionHypothesis behind around.2 each.2)

/-! ## Texts that the composer writes itself -/

theorem inert_errorBlock {message : Text} (inert : Inert message) : Inert (errorBlock message) := by
  have opening : Inert "<div style=\"background-color: #f08080\">".toList := by decide +kernel
  have closing : Inert "</div>".toList := by decide +kernel
  exact (opening.append inert).append closing

theorem inert_unprocessedBlock {placeholder : Placeholder} (label : Inert placeholder.label) :
    Inert (unprocessedBlock placeholder) := by
  have words : Inert "Could not process ".toList := by decide +kernel
  exact inert_errorBlock (words.append label)

theorem inert_unprocessedLayout {placeholder : Placeholder} (label : Inert placeholder.label) :
    Inert (unprocessedLayout placeholder) := by
  have words : Inert "Could not process layoutPlaceholder ".toList := by decide +kernel
  exact inert_errorBlock (words.append label)

theorem inert_slotNotice {placeholder : Placeholder} (isContent : placeholder.kind = .content)
    (label : Inert placeholder.label) : Inert (Composer.slotNotice placeholder) := by
  have words : Inert "<!-- content placeholder not called as layout - ".toList := by
    decide +kernel
  have closing : Inert tagClose := by decide
  have spelled : "<!-- content placeholder not called as layout - content:".toList =
      "<!-- content placeholder not called as layout - ".toList ++
        (Kind.content.name ++ [':']) := by
    decide +kernel
  have notice : Composer.slotNotice placeholder =
      "<!-- content placeholder not called as layout - ".toList ++ placeholder.label ++
        tagClose := by
    unfold Composer.slotNotice Placeholder.label
    rw [spelled, isContent]
    simp only [List.append_assoc, List.cons_append, List.nil_append]
  rw [notice]
  exact (words.append label).append closing

theorem inert_region {placeholder : Placeholder} {marked : Bool} {text : Text}
    (definition : marked = true -> Inert placeholder.definition) (inert : Inert text) :
    Inert (placeholder.region marked text) := by
  have beginning : Inert beginMarker := by decide
  have ending : Inert endMarker := by decide
  have closing : Inert tagClose := by decide
  unfold Placeholder.region
  split
  · rename_i isMarked
    have written := definition isMarked
    exact (((beginning.append written).append closing).append inert).append
      ((ending.append written).append closing)
  · exact inert

namespace Composer

variable {composer : Composer} {options : Options} {placeholder : Placeholder}

/-! ## What a tag brings in -/

/-- A value that a list of arguments can put into a slot. -/
def Binds (args : List Text) (value : Text) : Prop :=
  value ∈ args ∨ ∃ key, (key, value) ∈ args.filterMap (Text.cutAtChar? '=')

/-- A wrapper of a slot that can be put in as it is stored. -/
structure InertWrapper (composer : Composer) (reference : Placeholder) : Prop where
  label : Inert reference.label
  stored : ∀ path text, composer.site.locate reference = .ok path ->
    composer.site.read path = .ok text -> Inert text

/-- The values and the wrappers that a layout is filled with are inert. -/
structure InertFilling (composer : Composer) (placeholder : Placeholder) : Prop where
  bound : ∀ value markup, Binds placeholder.args value ->
    composer.bindValues value = .ok markup -> Inert markup
  wrapper : ∀ path contents slots slot wrapper, composer.site.locate placeholder = .ok path ->
    readFragment composer.site path = .ok contents ->
    scanKind composer.site path .content (Text.trim contents) = .ok slots -> slot ∈ slots ->
    slot.wrapperName? = some wrapper -> InertWrapper composer (slot.slotWrapper wrapper)

/-- Everything that a tag brings into a document is inert. -/
structure InertTag (composer : Composer) (options : Options) (placeholder : Placeholder) :
    Prop where
  label : Inert placeholder.label
  definition : options.markRegions = true -> Inert placeholder.definition
  fragment : ∀ path contents, composer.site.locate placeholder = .ok path ->
    readFragment composer.site path = .ok contents -> Inert contents
  filling : placeholder.kind = .layout -> InertFilling composer placeholder

theorem binds_of_boundValue? {mode : BindingMode} {args : List Text} {slot : Placeholder}
    {index : Nat} {value : Text} (bound : boundValue? mode args slot index = some value) :
    Binds args value := by
  cases mode with
  | byName =>
      rcases List.lookup_eq_some_iff.mp bound with ⟨before, after, entries, _⟩
      refine Or.inr ⟨slot.name, ?_⟩
      rw [entries]
      exact List.mem_append_right _ List.mem_cons_self
  | byPosition => exact Or.inl (List.mem_reverse.mp (List.mem_of_getElem? bound))

theorem inert_wrapSlot {slot : Placeholder} {wrapper bound text : Text}
    (wraps : InertWrapper composer (slot.slotWrapper wrapper)) (inert : Inert bound)
    (wrapped : composer.wrapSlot slot wrapper bound = .ok text) : Inert text := by
  rcases eq_of_wrapSlot wrapped with blocked | ⟨path, stored, slot, located, read, found, put⟩
  · rw [blocked]
    exact inert_unprocessedBlock wraps.label
  · rcases exists_mainSlot found with ⟨before, after, main⟩
    have around := main.inert_around (wraps.stored path stored located read)
    rw [put, main.replaceIn]
    exact (around.1.append inert).append around.2

theorem inert_slotText {slot : Placeholder} {value? : Option Text} {text : Text}
    (bound : ∀ value markup, value? = some value -> composer.bindValues value = .ok markup ->
      Inert markup)
    (wraps : ∀ wrapper, slot.wrapperName? = some wrapper ->
      InertWrapper composer (slot.slotWrapper wrapper))
    (filled : composer.slotText slot value? = .ok text) : Inert text := by
  rcases exists_bound_of_slotText filled with ⟨markup, received, placed⟩
  have inert : Inert markup := by
    rcases received_eq_ok_iff.mp received with ⟨_, empty⟩ | ⟨value, given, binding⟩
    · rw [empty]
      exact .nil
    · exact bound value markup given binding
  rcases placed with ⟨_, equal⟩ | ⟨wrapper, named, wrapped⟩
  · rw [equal]
    exact inert
  · exact inert_wrapSlot (wraps wrapper named) inert wrapped

/-- Slots are filled from the last one backwards.  What lies behind the slots still
to come is already changed, and it is inert. -/
theorem inert_fillSlots {mode : BindingMode} {args : List Text} {backwards : List Placeholder}
    {front tail : Text} (laid : Laid 0 backwards.reverse front)
    (shaped : ∀ slot ∈ backwards, TagShaped slot.tag)
    (each : ∀ slot ∈ backwards, ∀ index text,
      composer.slotText slot (boundValue? mode args slot index) = .ok text -> Inert text)
    (inertFront : Inert front) (inertTail : Inert tail) {index : Nat} {text : Text}
    (filled : composer.fillSlots mode args (backwards.zipIdx index) (front ++ tail) = .ok text) :
    Inert text := by
  induction backwards generalizing front tail index with
  | nil =>
      cases filled
      exact inertFront.append inertTail
  | cons slot others inductionHypothesis =>
      rw [List.forall_mem_cons] at shaped each
      rw [List.reverse_cons] at laid
      rcases laid.split with ⟨before, after, joined, starts, stops, former, _⟩
      rw [Nat.zero_add] at starts
      rw [List.zipIdx_cons] at filled
      rcases bind_eq_ok_iff.mp filled with ⟨replacement, slotFilled, continued⟩
      rw [joined] at inertFront
      have around := inertFront.around_tag shaped.1
      have put := each.1 index replacement slotFilled
      rw [joined, List.append_assoc, Placeholder.replaceIn_append starts (starts ▸ stops),
        List.append_assoc] at continued
      exact inductionHypothesis former shaped.2 each.2 around.1
        (put.append (around.2.append inertTail)) continued

theorem inert_layoutText (tag : InertTag composer options placeholder)
    (isLayout : placeholder.kind = .layout) {text : Text}
    (laidOut : composer.layoutText placeholder = .ok text) : Inert text := by
  rcases eq_of_layoutText laidOut with
    blocked | ⟨path, contents, slots, mode, body, located, read, scanned, filled, trimmed⟩
  · rw [blocked]
    exact inert_unprocessedLayout tag.label
  · have layout := tag.filling isLayout
    have laid := scanKindFrom_laid scanned
    rw [← List.reverse_reverse slots] at laid
    rw [← List.append_nil (Text.trim contents)] at filled
    rw [trimmed]
    apply Inert.trim
    refine inert_fillSlots laid ?_ ?_ (tag.fragment path contents located read).trim .nil filled
    · intro slot member
      exact tagShaped_of_scanKind scanned slot (List.mem_reverse.mp member)
    · intro slot member index text slotFilled
      refine inert_slotText ?_ ?_ slotFilled
      · intro value markup bound binding
        exact layout.bound value markup (binds_of_boundValue? bound) binding
      · intro wrapper named
        exact layout.wrapper path contents slots slot wrapper located read scanned
          (List.mem_reverse.mp member) named

theorem inert_fileText (tag : InertTag composer options placeholder) {text : Text}
    (included : composer.fileText placeholder = .ok text) : Inert text := by
  rcases eq_of_fileText included with blocked | ⟨path, contents, located, read, trimmed⟩
  · rw [blocked]
    exact inert_unprocessedBlock tag.label
  · rw [trimmed]
    exact (tag.fragment path contents located read).trim

/-- What a run puts in place of a tag is inert. -/
theorem inert_shown
    (tag : placeholder.kind.isLink = false -> InertTag composer options placeholder)
    (noWrap : placeholder.kind ≠ .wrap) {template : Path} {resolution : Resolution}
    (resolved : composer.resolve template placeholder = .ok resolution) :
    Inert (resolution.shown options placeholder) := by
  unfold resolve at resolved
  unfold Resolution.shown
  cases kind : placeholder.kind with
  | wrap => exact absurd kind noWrap
  | file =>
      rw [kind] at resolved tag
      rcases map_eq_ok_iff.mp resolved with ⟨text, included, equal⟩
      subst equal
      exact inert_region (tag rfl).definition (inert_fileText (tag rfl) included)
  | layout =>
      rw [kind] at resolved tag
      rcases map_eq_ok_iff.mp resolved with ⟨text, laidOut, equal⟩
      subst equal
      exact inert_region (tag rfl).definition (inert_layoutText (tag rfl) kind laidOut)
  | content =>
      rw [kind] at resolved tag
      cases resolved
      exact inert_slotNotice kind (tag rfl).label
  | linkCss =>
      rw [kind] at resolved
      rcases map_eq_ok_iff.mp resolved with ⟨address, _, equal⟩
      subst equal
      exact .nil
  | linkScript =>
      rw [kind] at resolved
      rcases map_eq_ok_iff.mp resolved with ⟨address, _, equal⟩
      subst equal
      exact .nil

end Composer
end PageComposer
