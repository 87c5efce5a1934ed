import PageComposer.Compose.Run
import PageComposer.Proofs.Outcome
import PageComposer.Proofs.Substitution

namespace PageComposer

/-!
# A run as a substitution

What a placeholder is resolved to does not depend on the document that is being
changed.  A run therefore splits into two parts: every placeholder is resolved
(`Composer.resolve`), and the results are put in from the back
(`RunState.absorb`).  The second part cannot fail, and on placeholders that are
laid out in the document it does what `substitute` does from the front
(`absorbed`).  The wrap that waits for the end of the run is carried along with
its span, which keeps delimiting its tag (`absorbed_wrap`).

What a tag is resolved to is taken apart once, into the block for a missing file and
the text that the file gives (`Composer.eq_of_fileText`, `Composer.eq_of_layoutText`,
`Composer.eq_of_wrapSlot`).
-/

/-- What resolving one placeholder gives: the text for its span and the
addresses that it registers. -/
structure Resolution where
  text : Text
  styles : List Text := []
  scripts : List Text := []

/-- The text that is put in: marked as a region for the kinds whose regions can
be marked. -/
def Resolution.shown (options : Options) (placeholder : Placeholder) (resolution : Resolution) :
    Text :=
  match placeholder.kind with
  | .file | .layout => placeholder.region options.markRegions resolution.text
  | .content | .wrap | .linkCss | .linkScript => resolution.text

/-- Resolve one placeholder.  A wrap is left as it stands. -/
def Composer.resolve (composer : Composer) (template : Path) (placeholder : Placeholder) :
    Except Failure Resolution :=
  match placeholder.kind with
  | .wrap => .ok { text := placeholder.tag }
  | .file => (composer.fileText placeholder).map fun text => { text := text }
  | .layout => (composer.layoutText placeholder).map fun text => { text := text }
  | .content => .ok { text := Composer.slotNotice placeholder }
  | .linkCss =>
      (composer.linkedAddress template placeholder).map fun address =>
        { text := [], styles := [address] }
  | .linkScript =>
      (composer.linkedAddress template placeholder).map fun address =>
        { text := [], scripts := [address] }

/-- The text that a run puts in place of a placeholder that is no wrap. -/
def Composer.replacement (composer : Composer) (template : Path) (options : Options)
    (placeholder : Placeholder) : Except Failure Text :=
  (composer.resolve template placeholder).map (Resolution.shown options placeholder)

/-- Resolve placeholders one after the other, each together with its result. -/
def Composer.resolveAll (composer : Composer) (template : Path) (placeholders : List Placeholder) :
    Except Failure (List (Placeholder × Resolution)) :=
  placeholders.mapM fun placeholder =>
    (composer.resolve template placeholder).map (Prod.mk placeholder)

/-- Put a result into the document, or keep a wrap for the end of the run. -/
def RunState.absorb (options : Options) (state : RunState) (found : Placeholder × Resolution) :
    RunState :=
  if found.1.kind = .wrap then { state with wrap? := state.wrap?.or (some found.1) }
  else
    { state.put found.1 (found.2.shown options found.1) with
      styles := found.2.styles ++ state.styles
      scripts := found.2.scripts ++ state.scripts }

theorem Composer.step_eq (composer : Composer) (template : Path) (options : Options)
    (state : RunState) (placeholder : Placeholder) :
    composer.step template options state placeholder =
      (composer.resolve template placeholder).map fun resolution =>
        state.absorb options (placeholder, resolution) := by
  unfold Composer.step Composer.resolve RunState.absorb
  cases kind : placeholder.kind with
  | file =>
      cases composer.fileText placeholder <;>
        simp [Except.map, bind, Except.bind, pure, Except.pure, Resolution.shown, kind,
          RunState.put]
  | content => simp [Except.map, Resolution.shown, kind, RunState.put]
  | layout =>
      cases composer.layoutText placeholder <;>
        simp [Except.map, bind, Except.bind, pure, Except.pure, Resolution.shown, kind,
          RunState.put]
  | wrap => simp [Except.map, kind]
  | linkCss =>
      cases composer.linkedAddress template placeholder <;>
        simp [Except.map, bind, Except.bind, pure, Except.pure, Resolution.shown, kind,
          RunState.put]
  | linkScript =>
      cases composer.linkedAddress template placeholder <;>
        simp [Except.map, bind, Except.bind, pure, Except.pure, Resolution.shown, kind,
          RunState.put]

/-- A run in progress is a list of results that were put in. -/
theorem Composer.foldlM_step (composer : Composer) (template : Path) (options : Options)
    (placeholders : List Placeholder) (state : RunState) :
    placeholders.foldlM (composer.step template options) state =
      (composer.resolveAll template placeholders).map fun resolved =>
        resolved.foldl (RunState.absorb options) state :=
  foldlM_eq_map_foldl (composer.step_eq template options) placeholders state

theorem Composer.resolveAll_eq_ok_iff {composer : Composer} {template : Path}
    {placeholders : List Placeholder} {resolved : List (Placeholder × Resolution)} :
    composer.resolveAll template placeholders = .ok resolved ↔
      resolved.map Prod.fst = placeholders ∧
        ∀ found ∈ resolved, composer.resolve template found.1 = .ok found.2 := by
  unfold Composer.resolveAll
  rw [mapM_eq_ok_iff]
  induction resolved generalizing placeholders with
  | nil => cases placeholders <;> simp
  | cons found others inductionHypothesis =>
      cases placeholders with
      | nil => simp
      | cons placeholder rest =>
          rw [List.map_cons, List.map_cons, List.cons.injEq, inductionHypothesis, map_eq_ok_iff,
            List.map_cons, List.cons.injEq, List.forall_mem_cons]
          constructor
          · rintro ⟨⟨resolution, resolved, equal⟩, same, all⟩
            subst equal
            exact ⟨⟨rfl, same⟩, resolved, all⟩
          · rintro ⟨⟨equal, same⟩, resolved, all⟩
            subst equal
            exact ⟨⟨found.2, resolved, rfl⟩, same, all⟩

theorem Composer.resolves_of_resolveAll {composer : Composer} {template : Path}
    {placeholders : List Placeholder} {resolved : List (Placeholder × Resolution)}
    (all : composer.resolveAll template placeholders = .ok resolved) :
    ∀ placeholder ∈ placeholders, ∃ resolution,
      composer.resolve template placeholder = .ok resolution := by
  rcases resolveAll_eq_ok_iff.mp all with ⟨same, each⟩
  intro placeholder member
  rw [← same] at member
  rcases List.mem_map.mp member with ⟨found, within, equal⟩
  exact ⟨found.2, equal ▸ each found within⟩

/-! ## What replaces a tag, case by case -/

/-- What the wrapper of a slot is looked up by. -/
def Placeholder.slotWrapper (slot : Placeholder) (wrapper : Text) : Placeholder :=
  .detached .wrap (if Text.startsWith ['/'] wrapper then wrapper else '/' :: wrapper)
    slot.document

/-- The block for a layout that cannot be resolved. -/
def unprocessedLayout (placeholder : Placeholder) : Text :=
  errorBlock ("Could not process layoutPlaceholder ".toList ++ placeholder.label)

namespace Composer

variable {composer : Composer} {placeholder : Placeholder} {text : Text}

theorem eq_of_fileText (included : composer.fileText placeholder = .ok text) :
    text = unprocessedBlock placeholder ∨
      ∃ path contents, composer.site.locate placeholder = .ok path ∧
        readFragment composer.site path = .ok contents ∧ text = Text.trim contents := by
  unfold fileText at included
  split at included
  · rename_i contents loaded
    cases included
    rcases bind_eq_ok_iff.mp loaded with ⟨path, found, read⟩
    exact Or.inr ⟨path, contents, found, read, rfl⟩
  · split at included
    · cases included
      exact Or.inl rfl
    · cases included

theorem eq_of_layoutText (laidOut : composer.layoutText placeholder = .ok text) :
    text = unprocessedLayout placeholder ∨
      ∃ path contents slots mode body, composer.site.locate placeholder = .ok path ∧
        readFragment composer.site path = .ok contents ∧
        scanKind composer.site path .content (Text.trim contents) = .ok slots ∧
        composer.fillSlots mode placeholder.args slots.reverse.zipIdx (Text.trim contents) =
          .ok body ∧
        text = Text.trim body := by
  unfold layoutText at laidOut
  dsimp only at laidOut
  split at laidOut
  · split at laidOut
    · cases laidOut
      exact Or.inl rfl
    · cases laidOut
  · rename_i path contents loaded
    rcases bind_eq_ok_iff.mp loaded with ⟨located, found, continued⟩
    rcases bind_eq_ok_iff.mp continued with ⟨stored, read, equal⟩
    cases equal
    rcases bind_eq_ok_iff.mp laidOut with ⟨slots, scanned, rest⟩
    rcases bind_eq_ok_iff.mp rest with ⟨mode, _, filling⟩
    rcases bind_eq_ok_iff.mp filling with ⟨body, filled, result⟩
    cases result
    exact Or.inr ⟨path, contents, slots, mode, body, found, read, scanned, filled, rfl⟩

/-- A wrapper of a slot is put in as it is stored. -/
theorem eq_of_wrapSlot {slot : Placeholder} {wrapper bound : Text}
    (wrapped : composer.wrapSlot slot wrapper bound = .ok text) :
    text = unprocessedBlock (slot.slotWrapper wrapper) ∨
      ∃ path contents main, composer.site.locate (slot.slotWrapper wrapper) = .ok path ∧
        composer.site.read path = .ok contents ∧
        findMainSlot composer.site path contents = .ok main ∧
        text = main.replaceIn contents bound := by
  unfold wrapSlot at wrapped
  dsimp only at wrapped
  split at wrapped
  · split at wrapped
    · cases wrapped
      exact Or.inl rfl
    · cases wrapped
  · rename_i path contents loaded
    rcases bind_eq_ok_iff.mp loaded with ⟨located, found, continued⟩
    rcases bind_eq_ok_iff.mp continued with ⟨stored, read, equal⟩
    cases equal
    rcases bind_eq_ok_iff.mp wrapped with ⟨main, foundSlot, result⟩
    cases result
    exact Or.inr ⟨path, contents, main, found, read, foundSlot, rfl⟩

theorem received_eq_ok_iff {value? : Option Text} {bound : Text} :
    composer.received value? = .ok bound ↔
      value? = none ∧ bound = [] ∨
        ∃ value, value? = some value ∧ composer.bindValues value = .ok bound := by
  cases value? with
  | none => simp [received, eq_comm]
  | some value => simp [received]

/-- A slot holds what it receives, in the wrapper that it names, if it names one. -/
theorem exists_bound_of_slotText {slot : Placeholder} {value? : Option Text}
    (filled : composer.slotText slot value? = .ok text) :
    ∃ bound, composer.received value? = .ok bound ∧
      (slot.wrapperName? = none ∧ text = bound ∨
        ∃ wrapper, slot.wrapperName? = some wrapper ∧
          composer.wrapSlot slot wrapper bound = .ok text) := by
  rcases bind_eq_ok_iff.mp filled with ⟨bound, received, continued⟩
  refine ⟨bound, received, ?_⟩
  cases named : slot.wrapperName? with
  | none =>
      rw [named] at continued
      cases continued
      exact Or.inl ⟨rfl, rfl⟩
  | some wrapper =>
      rw [named] at continued
      exact Or.inr ⟨wrapper, rfl, continued⟩

end Composer

/-! ## Putting the results in -/

/-- The spans that are replaced, with their texts. -/
def shownSpans (options : Options) (resolved : List (Placeholder × Resolution)) :
    List (Placeholder × Text) :=
  (resolved.filter fun found => found.1.kind != .wrap).map fun found =>
    (found.1, found.2.shown options found.1)

theorem shownSpans_placeholders (options : Options) (resolved : List (Placeholder × Resolution)) :
    (shownSpans options resolved).map Prod.fst =
      (resolved.map Prod.fst).filter fun placeholder => placeholder.kind != .wrap := by
  unfold shownSpans
  rw [List.map_map, List.filter_map]
  rfl

/-- The wrap that a run keeps: the last one of the document. -/
def lastWrap? (placeholders : List Placeholder) : Option Placeholder :=
  placeholders.findRev? fun placeholder => placeholder.kind == .wrap

theorem lastWrap?_eq_none_iff {placeholders : List Placeholder} :
    lastWrap? placeholders = none ↔ ∀ placeholder ∈ placeholders, placeholder.kind ≠ .wrap := by
  unfold lastWrap?
  rw [List.findRev?_eq_find?_reverse, List.find?_eq_none]
  simp

/-- Behind the last wrap there is no other one. -/
theorem exists_split_of_lastWrap? {placeholders : List Placeholder} {wrap : Placeholder}
    (found : lastWrap? placeholders = some wrap) :
    ∃ earlier later, placeholders = earlier ++ wrap :: later ∧ wrap.kind = .wrap ∧
      ∀ placeholder ∈ later, placeholder.kind ≠ .wrap := by
  unfold lastWrap? at found
  rw [List.findRev?_eq_find?_reverse, List.find?_eq_some_iff_append] at found
  rcases found with ⟨isWrap, behind, before, reversed, without⟩
  refine ⟨before.reverse, behind.reverse, ?_, beq_iff_eq.mp isWrap, ?_⟩
  · have forward := congrArg List.reverse reversed
    simpa using forward
  · intro placeholder member equal
    have absent := without placeholder (List.mem_reverse.mp member)
    simp [equal] at absent

/-- Of the wraps in a document the last one starts last. -/
theorem lastWrap?_last {placeholders : List Placeholder} {last : Placeholder}
    (ordered : placeholders.Pairwise fun left right => left.start < right.start)
    (found : lastWrap? placeholders = some last) :
    last ∈ placeholders ∧ last.kind = .wrap ∧
      ∀ other ∈ placeholders, other.kind = .wrap -> other = last ∨ other.start < last.start := by
  rcases exists_split_of_lastWrap? found with ⟨earlier, later, split, isWrap, without⟩
  subst split
  refine ⟨List.mem_append_right _ List.mem_cons_self, isWrap, ?_⟩
  intro other member otherWrap
  rcases List.mem_append.mp member with before | behind
  · have order := (List.pairwise_append.mp ordered).2.2
    exact Or.inr (order other before last List.mem_cons_self)
  · rcases List.mem_cons.mp behind with equal | within
    · exact Or.inl equal
    · exact absurd otherWrap (without other within)

/-- A placeholder whose offsets move along when the text in front of it, once of
size `former`, is of size `present`. -/
def Placeholder.moved (placeholder : Placeholder) (former present : Nat) : Placeholder :=
  { placeholder with
    start := placeholder.start + present - former
    stop := placeholder.stop + present - former }

theorem Placeholder.moved_beyond (placeholder : Placeholder) (untouched former present : Nat) :
    placeholder.moved (untouched + former) (untouched + present) =
      placeholder.moved former present := by
  unfold moved
  congr 1 <;> omega

/-- One change after the other moves by both. -/
theorem Placeholder.moved_moved {placeholder : Placeholder} {former present : Nat}
    (bound : former ≤ placeholder.start) (ordered : placeholder.start ≤ placeholder.stop)
    (earlier later : Nat) :
    (placeholder.moved former present).moved earlier later =
      placeholder.moved (earlier + former) (later + present) := by
  simp only [moved]
  congr 1 <;> omega

namespace RunState

theorem put_text {state : RunState} {placeholder : Placeholder} {front behind : Text}
    (text : state.text = front ++ placeholder.tag ++ behind)
    (starts : placeholder.start = Text.byteSize front)
    (stops : placeholder.stop = placeholder.start + Text.byteSize placeholder.tag)
    (replacement : Text) :
    (state.put placeholder replacement).text = front ++ replacement ++ behind := by
  change placeholder.replaceIn state.text replacement = _
  rw [text]
  exact Placeholder.replaceIn_append starts (starts ▸ stops) replacement

theorem put_wrap {state : RunState} {placeholder wrap : Placeholder} {front behind : Text}
    (text : state.text = front ++ placeholder.tag ++ behind)
    (starts : placeholder.start = Text.byteSize front)
    (stops : placeholder.stop = placeholder.start + Text.byteSize placeholder.tag)
    (replacement : Text) (waiting : state.wrap? = some wrap) :
    (state.put placeholder replacement).wrap? =
      some (wrap.moved (Text.byteSize placeholder.tag) (Text.byteSize replacement)) := by
  have former := congrArg Text.byteSize text
  have present := congrArg Text.byteSize (put_text text starts stops replacement)
  change Text.byteSize (placeholder.replaceIn state.text replacement) = _ at present
  simp only [Text.byteSize_append] at former present
  simp only [put, waiting, Option.map_some, Placeholder.moved]
  congr 2 <;> omega

end RunState

/-- Putting results in from the back replaces all spans of `text` at once, and a
wrap that waits behind `text` moves along.  The induction is from the front:
what was put in behind a placeholder is the substitution in the rest. -/
theorem absorbed (options : Options) {offset : Nat} {resolved : List (Placeholder × Resolution)}
    {text front behind : Text} {state : RunState}
    (standing : state.text = front ++ text ++ behind)
    (laid : Laid offset (resolved.map Prod.fst) text) (reached : Text.byteSize front = offset) :
    let final := resolved.reverse.foldl (RunState.absorb options) state
    let after := substituteFrom offset (shownSpans options resolved) text
    final.text = front ++ after ++ behind ∧
      ∀ wrap, state.wrap? = some wrap -> Text.byteSize (front ++ text) ≤ wrap.start ->
        wrap.start ≤ wrap.stop ->
        final.wrap? = some (wrap.moved (Text.byteSize text) (Text.byteSize after)) := by
  induction resolved generalizing offset front text with
  | nil =>
      refine ⟨standing, ?_⟩
      intro wrap waiting _ _
      simp [shownSpans, substituteFrom, Placeholder.moved, waiting]
  | cons found others inductionHypothesis =>
      rcases found with ⟨placeholder, resolution⟩
      cases laid with
      | @cons _ _ _ gap rest starts stops laidRest =>
          have joined : front ++ (gap ++ placeholder.tag ++ rest) ++ behind =
              (front ++ gap ++ placeholder.tag) ++ rest ++ behind := by
            simp only [List.append_assoc]
          have passed : Text.byteSize (front ++ gap ++ placeholder.tag) = placeholder.stop := by
            rw [Text.byteSize_append, Text.byteSize_append, reached, stops, starts]
          have later := inductionHypothesis (joined ▸ standing) laidRest passed
          simp only [List.reverse_cons, List.foldl_append, List.foldl_cons, List.foldl_nil]
          generalize others.reverse.foldl (RunState.absorb options) state = between at later ⊢
          rcases later with ⟨betweenText, betweenWrap⟩
          have laidBehind :
              Laid placeholder.stop ((shownSpans options others).map Prod.fst) rest := by
            rw [shownSpans_placeholders]
            exact laidRest.filter _
          by_cases isWrap : placeholder.kind = .wrap
          · have skipped : shownSpans options ((placeholder, resolution) :: others) =
                shownSpans options others := by
              simp [shownSpans, isWrap]
            have beyond : placeholder.stop =
                offset + Text.byteSize (gap ++ placeholder.tag) := by
              rw [stops, starts, Text.byteSize_append, Nat.add_assoc]
            have kept : between.absorb options (placeholder, resolution) =
                { between with wrap? := between.wrap?.or (some placeholder) } := if_pos isWrap
            rw [beyond] at laidBehind betweenText betweenWrap
            rw [skipped, substituteFrom_prepend laidBehind, kept]
            refine ⟨?_, ?_⟩
            · rw [betweenText]
              simp only [List.append_assoc]
            · intro wrap waiting behindText ordered
              have bound : Text.byteSize (front ++ gap ++ placeholder.tag ++ rest) ≤
                  wrap.start := by
                simpa only [List.append_assoc] using behindText
              have moved := betweenWrap wrap waiting bound ordered
              rw [Text.byteSize_append (gap ++ placeholder.tag),
                Text.byteSize_append (gap ++ placeholder.tag), Placeholder.moved_beyond]
              dsimp only
              rw [moved, Option.some_or]
          · have replaced : shownSpans options ((placeholder, resolution) :: others) =
                (placeholder, resolution.shown options placeholder) ::
                  shownSpans options others := by
              simp [shownSpans, isWrap]
            have ready : between.text = (front ++ gap) ++ placeholder.tag ++
                (substituteFrom placeholder.stop (shownSpans options others) rest ++ behind) := by
              rw [betweenText]
              simp only [List.append_assoc]
            have here : placeholder.start = Text.byteSize (front ++ gap) := by
              rw [starts, Text.byteSize_append, reached]
            have put : between.absorb options (placeholder, resolution) =
                { between.put placeholder (resolution.shown options placeholder) with
                  styles := resolution.styles ++ between.styles
                  scripts := resolution.scripts ++ between.scripts } := if_neg isWrap
            rw [replaced, substituteFrom_cons starts stops, put]
            refine ⟨?_, ?_⟩
            · dsimp only
              rw [RunState.put_text ready here stops]
              simp only [List.append_assoc]
            · intro wrap waiting behindText ordered
              have bound : Text.byteSize (front ++ gap ++ placeholder.tag ++ rest) ≤
                  wrap.start := by
                simpa only [List.append_assoc] using behindText
              have moved := betweenWrap wrap waiting bound ordered
              have restBound : Text.byteSize rest ≤ wrap.start := by
                rw [Text.byteSize_append] at bound
                omega
              dsimp only
              rw [RunState.put_wrap ready here stops _ moved,
                Placeholder.moved_moved restBound ordered, List.append_assoc gap,
                List.append_assoc gap, Text.byteSize_append gap, Text.byteSize_append gap,
                Placeholder.moved_beyond, Text.byteSize_append, Text.byteSize_append]

/-- Without a wrap nothing is kept for the end. -/
theorem absorbed_without_wrap (options : Options) {resolved : List (Placeholder × Resolution)}
    (without : ∀ placeholder ∈ resolved.map Prod.fst, placeholder.kind ≠ .wrap)
    {state : RunState} (nothing : state.wrap? = none) :
    (resolved.foldl (RunState.absorb options) state).wrap? = none := by
  induction resolved generalizing state with
  | nil => exact nothing
  | cons found others inductionHypothesis =>
      rw [List.map_cons, List.forall_mem_cons] at without
      apply inductionHypothesis without.2
      rw [RunState.absorb, if_neg without.1]
      simp [RunState.put, nothing]

/-- The last wrap is kept, and its offsets delimit its tag between what the
text in front of it and the text behind it have become. -/
theorem absorbed_wrap (options : Options) (resolution : Resolution)
    {earlier later : List (Placeholder × Resolution)} {wrap : Placeholder} {front rest : Text}
    (isWrap : wrap.kind = .wrap)
    (without : ∀ placeholder ∈ later.map Prod.fst, placeholder.kind ≠ .wrap)
    (starts : wrap.start = Text.byteSize front)
    (stops : wrap.stop = wrap.start + Text.byteSize wrap.tag)
    (laidFront : Laid 0 (earlier.map Prod.fst) front)
    (laidRest : Laid wrap.stop (later.map Prod.fst) rest) :
    let final := (earlier ++ (wrap, resolution) :: later).reverse.foldl
      (RunState.absorb options) { text := front ++ wrap.tag ++ rest }
    let before := substituteFrom 0 (shownSpans options earlier) front
    let after := substituteFrom wrap.stop (shownSpans options later) rest
    final.text = before ++ wrap.tag ++ after ∧
      final.wrap? = some { wrap with
        start := Text.byteSize before
        stop := Text.byteSize before + Text.byteSize wrap.tag } := by
  have passed : Text.byteSize (front ++ wrap.tag) = wrap.stop := by
    rw [Text.byteSize_append, stops, starts]
  have standing : ({ text := front ++ wrap.tag ++ rest } : RunState).text =
      (front ++ wrap.tag) ++ rest ++ [] := (List.append_nil _).symm
  have second := absorbed options standing laidRest passed
  have nothing := @absorbed_without_wrap options later.reverse (by simpa using without)
    { text := front ++ wrap.tag ++ rest } rfl
  simp only [List.reverse_append, List.reverse_cons, List.foldl_append, List.foldl_cons,
    List.foldl_nil]
  generalize later.reverse.foldl (RunState.absorb options)
    { text := front ++ wrap.tag ++ rest } = between at second nothing ⊢
  have kept : between.absorb options (wrap, resolution) =
      { between with wrap? := some wrap } := by
    rw [RunState.absorb, if_pos isWrap, nothing, Option.none_or]
  rw [kept]
  have behind : ({ between with wrap? := some wrap } : RunState).text = [] ++ front ++
      (wrap.tag ++ substituteFrom wrap.stop (shownSpans options later) rest) := by
    rw [second.1]
    simp only [List.append_assoc, List.append_nil, List.nil_append]
  have first := absorbed options behind laidFront rfl
  refine ⟨?_, ?_⟩
  · rw [first.1]
    simp only [List.append_assoc, List.nil_append]
  · rw [first.2 wrap rfl (by rw [starts]; exact Nat.le_refl _) (by omega)]
    simp only [Placeholder.moved]
    congr 2 <;> omega

/-- What is kept for the end lies behind everything that was not touched. -/
theorem absorbed_last_wrap (options : Options) {resolved : List (Placeholder × Resolution)}
    {front text : Text} {wrap : Placeholder}
    (laid : Laid (Text.byteSize front) (resolved.map Prod.fst) text)
    (last : lastWrap? (resolved.map Prod.fst) = some wrap) :
    let final := resolved.reverse.foldl (RunState.absorb options) { text := front ++ text }
    ∃ before after, final.text = (front ++ before) ++ wrap.tag ++ after ∧
      final.wrap? = some { wrap with
        start := Text.byteSize (front ++ before)
        stop := Text.byteSize (front ++ before) + Text.byteSize wrap.tag } := by
  rcases exists_split_of_lastWrap? last with ⟨earlier, later, split, isWrap, without⟩
  rcases List.map_eq_append_iff.mp split with ⟨first, second, joined, firstMap, secondMap⟩
  rcases List.map_eq_cons_iff.mp secondMap with
    ⟨⟨placeholder, resolution⟩, behind, secondSplit, foundWrap, behindMap⟩
  subst joined secondSplit firstMap behindMap
  subst foundWrap
  rw [split] at laid
  rcases laid.split with ⟨gap, rest, around, starts, stops, laidFront, laidRest⟩
  rw [around, ← List.append_assoc, ← List.append_assoc]
  have placed : Laid 0 (first.map Prod.fst) (front ++ gap) := by
    apply Laid.prepend
    rw [Nat.zero_add]
    exact laidFront
  have kept := absorbed_wrap options resolution isWrap without
    (by rw [starts, Text.byteSize_append]) stops placed laidRest
  have untouched : substituteFrom 0 (shownSpans options first) (front ++ gap) =
      front ++ substituteFrom (Text.byteSize front) (shownSpans options first) gap := by
    rw [substituteFrom_prepend, Nat.zero_add]
    rw [Nat.zero_add, shownSpans_placeholders]
    exact laidFront.filter _
  simp only [untouched] at kept
  exact ⟨_, _, kept⟩

/-- A run registers the addresses of its links in the order of the document. -/
theorem absorbed_addresses (options : Options) (resolved : List (Placeholder × Resolution))
    (state : RunState) :
    let registered := resolved.filter fun found => found.1.kind != .wrap
    let final := resolved.reverse.foldl (RunState.absorb options) state
    final.styles = registered.flatMap (fun found => found.2.styles) ++ state.styles ∧
      final.scripts = registered.flatMap (fun found => found.2.scripts) ++ state.scripts := by
  induction resolved with
  | nil => exact ⟨rfl, rfl⟩
  | cons found others inductionHypothesis =>
      simp only [List.reverse_cons, List.foldl_append, List.foldl_cons, List.foldl_nil]
      by_cases isWrap : found.1.kind = .wrap
      · rw [RunState.absorb, if_pos isWrap, List.filter_cons_of_neg (by simp [isWrap])]
        exact inductionHypothesis
      · rw [RunState.absorb, if_neg isWrap, List.filter_cons_of_pos (by simp [isWrap])]
        simp only [List.flatMap_cons, List.append_assoc, inductionHypothesis, and_self]

end PageComposer
