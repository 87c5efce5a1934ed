import PageComposer.Proofs.Fragment.Slot
import PageComposer.Proofs.Run.Resolution
import PageComposer.Proofs.Scan.Order

namespace PageComposer

/-!
# One run replaces all spans at once and wraps last

The placeholders of a document are resolved from its end backwards, and each
one changes the offsets of what lies behind it.  For placeholders that share no
byte the outcome is nevertheless that of one substitution over the unchanged
document, and the only offsets that are carried over, those of the wrap kept
for the end, still delimit its tag.
-/

theorem ensureDisjoint_of_ordered {template : Path} {placeholders : List Placeholder}
    (ordered : placeholders.Pairwise fun former later => former.stop ≤ later.start) :
    ensureDisjoint template placeholders.reverse = .ok () := by
  have backwards : placeholders.reverse.Pairwise fun later former => former.stop ≤ later.start :=
    List.pairwise_reverse.mpr ordered
  generalize placeholders.reverse = descending at backwards
  induction descending with
  | nil => rfl
  | cons later others inductionHypothesis =>
      cases others with
      | nil => rfl
      | cons earlier rest =>
          have order := List.pairwise_cons.mp backwards
          have apart := order.1 earlier List.mem_cons_self
          rw [ensureDisjoint, if_neg (by omega)]
          exact inductionHypothesis order.2

/-- Where neighbours share no byte no two do, since each of them has one. -/
theorem pairwise_of_ensureDisjoint {template : Path} {descending : List Placeholder}
    (nonempty : ∀ placeholder ∈ descending, placeholder.start < placeholder.stop)
    (checked : ensureDisjoint template descending = .ok ()) :
    descending.Pairwise fun later earlier => earlier.stop ≤ later.start := by
  induction descending with
  | nil => exact .nil
  | cons later others inductionHypothesis =>
      rw [List.forall_mem_cons] at nonempty
      cases others with
      | nil => exact List.pairwise_singleton _ _
      | cons earlier rest =>
          rw [ensureDisjoint] at checked
          split at checked
          · cases checked
          · have behind := inductionHypothesis nonempty.2 checked
            refine List.pairwise_cons.mpr ⟨?_, behind⟩
            intro other member
            rcases List.mem_cons.mp member with same | further
            · rw [same]
              omega
            · have order := (List.pairwise_cons.mp behind).1 other further
              have positive := nonempty.2 earlier List.mem_cons_self
              omega

namespace Composer

variable {composer : Composer} {template : Path} {options : Options} {document : Text}

/-- A run in which the placeholders `later`, the last ones of the document, are
done. -/
def progress (composer : Composer) (template : Path) (options : Options) (document : Text)
    (later : List Placeholder) : Except Failure RunState :=
  later.reverse.foldlM (composer.step template options) { text := document }

/-- The end of a run: the kept wrap is applied, and the addresses registered in
the run join those of the runs before it. -/
def finish (composer : Composer) (includes : Includes) (state : RunState) :
    Except Failure (Text × Includes) :=
  let wrapped :=
    match state.wrap? with
    | some wrap => applyWrap composer.site wrap state.text
    | none => .ok state.text
  wrapped.map fun text => (text, { includes with
    styles := includes.styles ++ state.styles
    scripts := includes.scripts ++ state.scripts })

/-- A run on placeholders in the order of the document. -/
theorem run_eq_progress {placeholders : List Placeholder} {includes : Includes}
    (ordered : placeholders.Pairwise fun former later => former.stop ≤ later.start)
    (nonempty : ∀ placeholder ∈ placeholders, placeholder.start < placeholder.stop) :
    composer.run template options document placeholders includes =
      composer.progress template options document placeholders >>= composer.finish includes := by
  have strict : placeholders.Pairwise fun left right => left.start < right.start := by
    apply ordered.imp_of_mem
    intro left right member _ before
    have positive := nonempty left member
    omega
  have reversed := mergeSort_descending (List.Perm.refl placeholders) strict
  unfold run
  rw [reversed]
  dsimp only
  rw [ensureDisjoint_of_ordered ordered]
  change composer.progress template options document placeholders >>= _ = _
  congr 1
  funext state
  unfold finish
  cases state.wrap? with
  | none => rfl
  | some wrap => cases applied : applyWrap composer.site wrap state.text <;> simp [applied] <;> rfl

/-- A run ends well only on placeholders that share no byte. -/
theorem disjoint_of_run {placeholders : List Placeholder} {includes : Includes}
    {result : Text × Includes}
    (nonempty : ∀ placeholder ∈ placeholders, placeholder.start < placeholder.stop)
    (finished : composer.run template options document placeholders includes = .ok result) :
    placeholders.Pairwise fun left right =>
      left.stop ≤ right.start ∨ right.stop ≤ left.start := by
  rcases bind_eq_ok_iff.mp finished with ⟨checked, disjoint, _⟩
  have same := List.mergeSort_perm placeholders fun left right => right.start ≤ left.start
  have apart := pairwise_of_ensureDisjoint
    (fun placeholder member => nonempty placeholder (same.mem_iff.mp member)) disjoint
  exact (same.pairwise_iff Or.symm).mp (apart.imp Or.inr)

theorem progress_eq (placeholders : List Placeholder) :
    composer.progress template options document placeholders =
      (composer.resolveAll template placeholders.reverse).map fun backwards =>
        backwards.foldl (RunState.absorb options) { text := document } :=
  composer.foldlM_step template options placeholders.reverse { text := document }

theorem exists_resolved_of_progress {later : List Placeholder} {state : RunState}
    (done : composer.progress template options document later = .ok state) :
    ∃ resolved, composer.resolveAll template later = .ok resolved ∧
      state = resolved.reverse.foldl (RunState.absorb options) { text := document } := by
  rw [progress_eq] at done
  rcases map_eq_ok_iff.mp done with ⟨backwards, resolved, equal⟩
  refine ⟨backwards.reverse, mapM_reverse_eq_ok_iff.mp resolved, ?_⟩
  rw [List.reverse_reverse, equal]

theorem replacements_of_resolveAll {placeholders : List Placeholder}
    {resolved : List (Placeholder × Resolution)}
    (all : composer.resolveAll template placeholders = .ok resolved) :
    (placeholders.filter fun placeholder => placeholder.kind != .wrap).mapM
        (fun placeholder =>
          (composer.replacement template options placeholder).map (Prod.mk placeholder)) =
      .ok (shownSpans options resolved) := by
  rcases resolveAll_eq_ok_iff.mp all with ⟨same, each⟩
  rw [mapM_eq_ok_iff, ← same, ← shownSpans_placeholders options, List.map_map]
  apply List.map_congr_left
  intro span member
  rcases List.mem_map.mp member with ⟨found, kept, equal⟩
  subst equal
  have one := each found (List.mem_filter.mp kept).1
  simp [replacement, one, Except.map]

/-- A run that ends well has resolved all placeholders, put the results in, and applied
the wrap that it kept. -/
theorem exists_absorbed_of_run {placeholders : List Placeholder} {includes after : Includes}
    {result : Text} (scanned : composer.scan template document = .ok placeholders)
    (finished : composer.run template options document placeholders includes =
      .ok (result, after)) :
    ∃ resolved state, composer.resolveAll template placeholders = .ok resolved ∧
      Laid 0 placeholders document ∧
      state = resolved.reverse.foldl (RunState.absorb options) { text := document } ∧
      (match state.wrap? with
        | some wrap => applyWrap composer.site wrap state.text
        | none => .ok state.text) = .ok result := by
  have nonempty : ∀ placeholder ∈ placeholders, placeholder.start < placeholder.stop :=
    fun placeholder member => scan_start_lt_stop scanned member
  rcases scan_laid scanned (disjoint_of_run nonempty finished) with ⟨laid, ordered⟩
  rw [run_eq_progress ordered nonempty] at finished
  rcases bind_eq_ok_iff.mp finished with ⟨state, done, wrapped⟩
  rcases map_eq_ok_iff.mp wrapped with ⟨text, applied, equal⟩
  cases equal
  rcases exists_resolved_of_progress done with ⟨resolved, all, stateEqual⟩
  exact ⟨resolved, state, all, laid, stateEqual, applied⟩

/-- What a run ends with: the text with all spans replaced, and around it the wrapper
of its last wrap. -/
theorem exists_substituted_of_run {placeholders : List Placeholder} {includes after : Includes}
    {result : Text} (scanned : composer.scan template document = .ok placeholders)
    (finished : composer.run template options document placeholders includes =
      .ok (result, after)) :
    ∃ resolved, composer.resolveAll template placeholders = .ok resolved ∧
      Laid 0 placeholders document ∧
      (lastWrap? placeholders = none ->
        result = substitute (shownSpans options resolved) document) ∧
      ∀ wrap, lastWrap? placeholders = some wrap -> ∃ front back,
        substitute (shownSpans options resolved) document = front ++ wrap.tag ++ back ∧
        WrapApplied composer.site { wrap with
          start := Text.byteSize front
          stop := Text.byteSize front + Text.byteSize wrap.tag } front back result := by
  rcases exists_absorbed_of_run scanned finished with
    ⟨resolved, state, all, laid, stateEqual, applied⟩
  have same := (resolveAll_eq_ok_iff.mp all).1
  have placed : Laid (Text.byteSize []) (resolved.map Prod.fst) document := same.symm ▸ laid
  have standing : ({ text := document } : RunState).text = [] ++ document ++ [] :=
    (List.append_nil _).symm
  have stateText := (absorbed options standing placed rfl).1
  rw [← stateEqual, List.nil_append, List.append_nil] at stateText
  refine ⟨resolved, all, laid, ?_, ?_⟩
  · intro last?
    have without := lastWrap?_eq_none_iff.mp last?
    have nothing := @absorbed_without_wrap options resolved.reverse
      (by rw [List.map_reverse, same]; simpa using without) { text := document } rfl
    rw [← stateEqual] at nothing
    rw [nothing] at applied
    cases applied
    exact stateText
  · intro wrap last?
    rw [← same] at last?
    rcases absorbed_last_wrap options placed last? with ⟨front, back, delimited, kept⟩
    simp only [List.nil_append, ← stateEqual] at delimited kept
    rw [kept] at applied
    rw [delimited] at applied
    exact ⟨front, back, stateText.symm.trans delimited, wrapApplied_of_applyWrap rfl rfl applied⟩

/-- The offsets that a step subtracts from are large enough: the span lies in
the text, and a kept wrap starts behind what is taken out. -/
theorem step_bounds {earlier later : List Placeholder} {next : Placeholder}
    {state changed : RunState} (laid : Laid 0 (earlier ++ next :: later) document)
    (done : composer.progress template options document later = .ok state)
    (stepped : composer.step template options state next = .ok changed) :
    next.start ≤ next.stop ∧ next.stop ≤ Text.byteSize state.text ∧
      ∀ wrap, state.wrap? = some wrap ->
        Text.byteSize state.text ≤ wrap.start + Text.byteSize changed.text ∧
          wrap.start ≤ wrap.stop := by
  rcases laid.split with ⟨front, rest, joined, starts, stops, _, behind⟩
  rw [Nat.zero_add] at starts
  rcases exists_resolved_of_progress done with ⟨resolved, all, equal⟩
  rcases resolveAll_eq_ok_iff.mp all with ⟨same, _⟩
  have passed : Text.byteSize (front ++ next.tag) = next.stop := by
    rw [Text.byteSize_append, stops, starts]
  rw [← same, ← passed] at behind
  rw [joined] at equal
  have standing : ({ text := front ++ next.tag ++ rest } : RunState).text =
      front ++ next.tag ++ rest ++ [] := (List.append_nil _).symm
  have text := (absorbed options standing behind rfl).1
  rw [← equal, List.append_nil] at text
  generalize substituteFrom _ (shownSpans options resolved) rest = behindText at text
  have size := congrArg Text.byteSize text
  rw [Text.byteSize_append, passed] at size
  refine ⟨by omega, by omega, ?_⟩
  intro wrap waiting
  have beyond : next.stop ≤ wrap.start ∧ wrap.start ≤ wrap.stop := by
    cases last? : lastWrap? (resolved.map Prod.fst) with
    | none =>
        have without := lastWrap?_eq_none_iff.mp last?
        have nothing := @absorbed_without_wrap options resolved.reverse (by simpa using without)
          { text := front ++ next.tag ++ rest } rfl
        rw [← equal, waiting] at nothing
        cases nothing
    | some last =>
        rcases absorbed_last_wrap options behind last? with ⟨before, after, _, kept⟩
        rw [← equal, waiting] at kept
        cases kept
        rw [Text.byteSize_append, passed]
        exact ⟨Nat.le_add_right _ _, Nat.le_add_right _ _⟩
  refine ⟨?_, beyond.2⟩
  rw [step_eq] at stepped
  rcases map_eq_ok_iff.mp stepped with ⟨resolution, _, result⟩
  by_cases isWrap : next.kind = .wrap
  · have unchanged : changed.text = state.text := by
      rw [← result, RunState.absorb, if_pos isWrap]
    rw [unchanged]
    exact Nat.le_add_left _ _
  · have replaced :
        changed.text = front ++ resolution.shown options next ++ behindText := by
      rw [← result, RunState.absorb, if_neg isWrap]
      exact RunState.put_text text starts stops _
    have newSize := congrArg Text.byteSize replaced
    simp only [Text.byteSize_append] at newSize
    omega

/-- On placeholders that share no byte a run puts all its texts in at once, and
the last wrap of the document is applied to the result.  Its kept offsets
delimit its tag there, and no subtraction of offsets on the way falls below
zero. -/
theorem run_substitutes {placeholders : List Placeholder} {includes after : Includes}
    {result : Text} (scanned : composer.scan template document = .ok placeholders)
    (disjoint : placeholders.Pairwise fun left right =>
      left.stop ≤ right.start ∨ right.stop ≤ left.start)
    (finished : composer.run template options document placeholders includes =
      .ok (result, after)) :
    ∃ replaced,
      (placeholders.filter fun placeholder => placeholder.kind != .wrap).mapM
          (fun placeholder =>
            (composer.replacement template options placeholder).map (Prod.mk placeholder)) =
        .ok replaced ∧
      ((∀ placeholder ∈ placeholders, placeholder.kind ≠ .wrap) ->
        result = substitute replaced document) ∧
      (∀ wrap ∈ placeholders, wrap.kind = .wrap ->
        (∀ other ∈ placeholders, other.kind = .wrap -> other.start ≤ wrap.start) ->
        ∃ front back state kept,
          substitute replaced document = front ++ wrap.tag ++ back ∧
          composer.progress template options document placeholders = .ok state ∧
          state.text = substitute replaced document ∧ state.wrap? = some kept ∧
          kept = { wrap with
            start := Text.byteSize front
            stop := Text.byteSize front + Text.byteSize wrap.tag } ∧
          WrapApplied composer.site kept front back result) ∧
      (∀ earlier next later state changed, placeholders = earlier ++ next :: later ->
        composer.progress template options document later = .ok state ->
        composer.step template options state next = .ok changed ->
        next.start ≤ next.stop ∧ next.stop ≤ Text.byteSize state.text ∧
          ∀ kept, state.wrap? = some kept ->
            Text.byteSize state.text ≤ kept.start + Text.byteSize changed.text ∧
              kept.start ≤ kept.stop) := by
  rcases scan_laid scanned disjoint with ⟨laid, ordered⟩
  have nonempty : ∀ placeholder ∈ placeholders, placeholder.start < placeholder.stop :=
    fun placeholder member => scan_start_lt_stop scanned member
  rw [run_eq_progress ordered nonempty] at finished
  rcases bind_eq_ok_iff.mp finished with ⟨state, done, wrapped⟩
  rcases map_eq_ok_iff.mp wrapped with ⟨text, applied, equal⟩
  cases equal
  rcases exists_resolved_of_progress done with ⟨resolved, all, stateEqual⟩
  have same := (resolveAll_eq_ok_iff.mp all).1
  have placed : Laid (Text.byteSize []) (resolved.map Prod.fst) document := same.symm ▸ laid
  have standing : ({ text := document } : RunState).text = [] ++ document ++ [] :=
    (List.append_nil _).symm
  have stateText := (absorbed options standing placed rfl).1
  rw [← stateEqual, List.nil_append, List.append_nil] at stateText
  refine ⟨shownSpans options resolved, replacements_of_resolveAll all, ?_, ?_, ?_⟩
  · intro without
    have nothing := @absorbed_without_wrap options resolved.reverse
      (by rw [List.map_reverse, same]; simpa using without) { text := document } rfl
    rw [← stateEqual] at nothing
    rw [nothing] at applied
    cases applied
    exact stateText
  · intro wrap member isWrap greatest
    have strict : placeholders.Pairwise fun left right => left.start < right.start := by
      apply ordered.imp_of_mem
      intro left right within _ before
      have positive := nonempty left within
      omega
    have found : lastWrap? placeholders = some wrap := by
      cases last? : lastWrap? placeholders with
      | none => exact absurd isWrap (lastWrap?_eq_none_iff.mp last? wrap member)
      | some last =>
          rcases lastWrap?_last strict last? with ⟨lastMember, lastIsWrap, others⟩
          have notLater := greatest last lastMember lastIsWrap
          rcases others wrap member isWrap with equal | less
          · rw [equal]
          · omega
    rw [← same] at found
    rcases absorbed_last_wrap options placed found with ⟨front, back, delimited, kept⟩
    simp only [List.nil_append, ← stateEqual] at delimited kept
    rw [kept] at applied
    refine ⟨front, back, state, _, ?_, done, stateText, kept, rfl, ?_⟩
    · exact stateText.symm.trans delimited
    · apply wrapApplied_of_applyWrap rfl rfl
      rw [← delimited]
      exact applied
  · intro earlier next later former changed split formerDone stepped
    exact step_bounds (split ▸ laid) formerDone stepped

/-- A document with tags on both sides of two wraps. -/
def wrappedTwice : Text :=
  "<!-- file:/part --><!-- wrap:/frame -->a<!-- content:note -->".toList ++
    "<!-- wrap:/frame --><!-- file:/part -->".toList

/-- A site with a wrapper and a part. -/
def framedSite : Listing :=
  ⟨[(⟨"/site/frame.html".toList⟩, "<p><!-- content:main --></p>".toList),
    (⟨"/site/part.html".toList⟩, "part".toList)]⟩

def framedComposer : Composer where
  site := framedSite.toSite (.atRoot ⟨"/site".toList⟩)

/-- Its placeholders in their order. -/
def wrappedTwicePlaceholders : List Placeholder :=
  let read (kind : Kind) (start : Nat) (raw : Text) : List Placeholder :=
    (readTag framedComposer.site ⟨"/site/index.html".toList⟩ kind start raw).toOption.toList
  read .file 0 "/part".toList ++ read .wrap 19 "/frame".toList ++
    read .content 40 "note".toList ++ read .wrap 61 "/frame".toList ++
    read .file 81 "/part".toList

def wrappedTwiceResult : Text :=
  "<p>part<!-- wrap:/frame -->a".toList ++
    "<!-- content placeholder not called as layout - content:note -->part</p>".toList

set_option maxRecDepth 100000 in
theorem run_substitutes_around_two_wraps :
    ∃ replaced front back kept,
      (wrappedTwicePlaceholders.filter fun placeholder => placeholder.kind != .wrap).mapM
          (fun placeholder =>
            (framedComposer.replacement ⟨"/site/index.html".toList⟩ {} placeholder).map
              (Prod.mk placeholder)) =
        .ok replaced ∧
      substitute replaced wrappedTwice = front ++ "<!-- wrap:/frame -->".toList ++ back ∧
      kept.start = Text.byteSize front ∧
      WrapApplied framedComposer.site kept front back wrappedTwiceResult := by
  have ordered : wrappedTwicePlaceholders.Pairwise fun former later =>
      former.stop ≤ later.start := by decide +kernel
  have nonempty : ∀ placeholder ∈ wrappedTwicePlaceholders,
      placeholder.start < placeholder.stop := by decide +kernel
  have scanned : framedComposer.scan ⟨"/site/index.html".toList⟩ wrappedTwice =
      .ok wrappedTwicePlaceholders := by
    apply @scan_of_perm _ _ _ _ _ (Kind.all.map fun kind =>
      wrappedTwicePlaceholders.filter fun placeholder => placeholder.kind = kind)
    all_goals decide +kernel
  have finished : framedComposer.run ⟨"/site/index.html".toList⟩ {} wrappedTwice
      wrappedTwicePlaceholders {} = .ok (wrappedTwiceResult, {}) := by
    rw [run_eq_progress ordered nonempty]
    decide +kernel
  have disjoint : wrappedTwicePlaceholders.Pairwise fun left right =>
      left.stop ≤ right.start ∨ right.stop ≤ left.start := ordered.imp Or.inl
  rcases run_substitutes scanned disjoint finished with ⟨replaced, resolved, _, wrapped, _⟩
  have last : ∃ wrap ∈ wrappedTwicePlaceholders, wrap.kind = .wrap ∧
      wrap.tag = "<!-- wrap:/frame -->".toList ∧
      ∀ other ∈ wrappedTwicePlaceholders, other.kind = .wrap -> other.start ≤ wrap.start := by
    decide +kernel
  rcases last with ⟨wrap, member, isWrap, tag, greatest⟩
  rcases wrapped wrap member isWrap greatest with
    ⟨front, back, state, kept, delimited, _, _, _, shifted, applied⟩
  rw [tag] at delimited
  refine ⟨replaced, front, back, kept, resolved, delimited, ?_, applied⟩
  rw [shifted]

end Composer
end PageComposer
