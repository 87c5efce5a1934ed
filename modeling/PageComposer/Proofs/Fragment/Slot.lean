import PageComposer.Proofs.Fragment.Wrapping
import PageComposer.Proofs.Scan.Spans

namespace PageComposer

/-!
# Applying the wrap of a document

The document goes into the main slot of its wrapper, which is the only slot of
that name.  Where the wrapper cannot be found or read, a block stands in place
of the wrap and the document is kept around it.
-/

/-- The single main slot of a wrapper, with the text around it. -/
structure MainSlot (site : Site) (wrapper : Path) (text : Text) (slot : Placeholder)
    (before after : Text) : Prop where
  only : ∃ slots, scanKind site wrapper .content text = .ok slots ∧
    slots.filter (fun slot => slot.name == mainSlotName) = [slot]
  around : text = before ++ slot.tag ++ after
  start : slot.start = Text.byteSize before
  stop : slot.stop = slot.start + Text.byteSize slot.tag

theorem exists_mainSlot {site : Site} {wrapper : Path} {text : Text} {slot : Placeholder}
    (found : findMainSlot site wrapper text = .ok slot) :
    ∃ before after, MainSlot site wrapper text slot before after := by
  rcases bind_eq_ok_iff.mp found with ⟨slots, scanned, single⟩
  have only : slots.filter (fun slot => slot.name == mainSlotName) = [slot] := by
    split at single
    · rename_i main equal
      cases single
      exact equal
    · cases single
    · cases single
  have member : slot ∈ slots := by
    have kept : slot ∈ slots.filter fun slot => slot.name == mainSlotName := by
      rw [only]
      exact List.mem_singleton_self slot
    exact (List.mem_filter.mp kept).1
  rcases (scanKindFrom_laid scanned).stands slot member with
    ⟨before, after, around, starts, stops⟩
  refine ⟨before, after, ⟨slots, scanned, only⟩, around, ?_, stops⟩
  rw [starts, Nat.zero_add]

theorem MainSlot.exists_scan {site : Site} {wrapper : Path} {text : Text} {slot : Placeholder}
    {before after : Text} (main : MainSlot site wrapper text slot before after) :
    ∃ slots, scanKind site wrapper .content text = .ok slots ∧ slot ∈ slots := by
  rcases main.only with ⟨slots, scanned, only⟩
  refine ⟨slots, scanned, ?_⟩
  have kept : slot ∈ slots.filter fun slot => slot.name == mainSlotName := by
    rw [only]
    exact List.mem_singleton_self slot
  exact (List.mem_filter.mp kept).1

theorem MainSlot.replaceIn {site : Site} {wrapper : Path} {text : Text} {slot : Placeholder}
    {before after : Text} (main : MainSlot site wrapper text slot before after)
    (replacement : Text) : slot.replaceIn text replacement = before ++ replacement ++ after := by
  rw [main.around]
  exact Placeholder.replaceIn_append main.start (main.start ▸ main.stop) replacement

/-- What applying a wrap to a document results in, when `front` and `back` stand
around its tag. -/
inductive WrapApplied (site : Site) (wrap : Placeholder) (front back : Text) : Text -> Prop
  | wrapped {wrapper : Path} {contents before after : Text} {slot : Placeholder}
      (located : site.locate wrap = .ok wrapper)
      (read : readFragment site wrapper = .ok contents)
      (main : MainSlot site wrapper (Text.trim contents) slot before after) :
      WrapApplied site wrap front back (before ++ (front ++ back) ++ after)
  | unresolved {failure : Failure} (lost : failure.isResolution = true)
      (missing : site.locate wrap = .error failure ∨
        ∃ wrapper, site.locate wrap = .ok wrapper ∧ readFragment site wrapper = .error failure) :
      WrapApplied site wrap front back (front ++ unprocessedBlock wrap ++ back)

theorem wrapApplied_of_applyWrap {site : Site} {wrap : Placeholder} {front back result : Text}
    (starts : wrap.start = Text.byteSize front)
    (stops : wrap.stop = wrap.start + Text.byteSize wrap.tag)
    (applied : applyWrap site wrap (front ++ wrap.tag ++ back) = .ok result) :
    WrapApplied site wrap front back result := by
  have replaced (replacement : Text) :
      wrap.replaceIn (front ++ wrap.tag ++ back) replacement = front ++ replacement ++ back :=
    Placeholder.replaceIn_append starts (starts ▸ stops) replacement
  unfold applyWrap applyWrapWith at applied
  cases located : site.locate wrap with
  | error failure =>
      simp only [located] at applied
      by_cases lost : failure.isResolution = true
      · rw [if_pos lost] at applied
        cases applied
        rw [unresolvedWrap, replaced]
        exact .unresolved lost (Or.inl located)
      · rw [if_neg lost] at applied
        cases applied
  | ok wrapper =>
      simp only [located, List.any_nil, Bool.false_eq_true, if_false] at applied
      cases entered : readFragmentWithin site site.fileCount [wrapper] wrapper with
      | error failure =>
          simp only [entered] at applied
          by_cases lost : failure.isResolution = true
          · rw [if_pos lost] at applied
            cases applied
            rw [unresolvedWrap, replaced]
            refine .unresolved lost (Or.inr ⟨wrapper, located, ?_⟩)
            have settled : Settled (readFragmentWithin site site.fileCount [wrapper] wrapper) := by
              intro other equal
              rw [entered] at equal
              cases equal
              exact lost
            rw [readFragment_of_within (Nat.le_refl _) settled, entered]
          · rw [if_neg lost] at applied
            cases applied
      | ok contents =>
          simp only [entered] at applied
          rcases bind_eq_ok_iff.mp applied with ⟨slot, found, equal⟩
          cases equal
          rcases exists_mainSlot found with ⟨before, after, main⟩
          rw [main.replaceIn, replaced, List.append_nil]
          refine .wrapped located ?_ main
          rw [readFragment_of_within (Nat.le_refl _) (entered ▸ settled_ok contents), entered]

/-- What a wrap puts around a document and in place of its own tag. -/
structure Surroundings where
  before : Text
  inside : Text
  after : Text

/-- The surroundings that a wrap asks for, whatever the document is. -/
def surround (site : Site) (wrap : Placeholder) : Except Failure Surroundings :=
  let unresolved (failure : Failure) : Except Failure Surroundings :=
    if failure.isResolution then .ok ⟨[], unprocessedBlock wrap, []⟩ else .error failure
  match site.locate wrap with
  | .error failure => unresolved failure
  | .ok wrapper =>
      match readFragmentWithin site site.fileCount [wrapper] wrapper with
      | .error failure => unresolved failure
      | .ok contents => do
          let text := Text.trim contents
          let main <- findMainSlot site wrapper text
          return ⟨(Text.splitAtByte main.start text).1, [], (Text.splitAtByte main.stop text).2⟩

/-- The document takes part in applying its wrap only with the texts in front of
the tag and behind it. -/
theorem applyWrap_eq_surround {site : Site} {wrap : Placeholder} {front back : Text}
    (starts : wrap.start = Text.byteSize front)
    (stops : wrap.stop = wrap.start + Text.byteSize wrap.tag) :
    applyWrap site wrap (front ++ wrap.tag ++ back) =
      (surround site wrap).map fun around =>
        around.before ++ (front ++ around.inside ++ back) ++ around.after := by
  have replaced (replacement : Text) :
      wrap.replaceIn (front ++ wrap.tag ++ back) replacement = front ++ replacement ++ back :=
    Placeholder.replaceIn_append starts (starts ▸ stops) replacement
  unfold applyWrap applyWrapWith surround unresolvedWrap
  simp only [replaced, List.any_nil, Bool.false_eq_true, if_false]
  cases site.locate wrap with
  | error failure => cases lost : failure.isResolution <;> simp [lost, Except.map]
  | ok wrapper =>
      dsimp only
      cases readFragmentWithin site site.fileCount [wrapper] wrapper with
      | error failure => cases lost : failure.isResolution <;> simp [lost, Except.map]
      | ok contents =>
          dsimp only
          cases findMainSlot site wrapper (Text.trim contents) <;> rfl

end PageComposer
