import PageComposer.Proofs.Fragment.Replacement
import PageComposer.Proofs.Run.Simultaneous

namespace PageComposer

/-!
# Runs on pieces

Over a clean site a run takes pieces to pieces: every tag becomes the pieces of
what it is resolved to, between the two comments of a region where regions are
marked, and all other pieces stay (`Piece.turned`).  The pieces of a text are
chosen once and for all by `piecesOf`; only what they spell matters.
-/

instance (text : Text) : Decidable (Tidy text) :=
  decidable_of_iff (isPlain text = true ∧ Text.contains tagClose text = false)
    (by
      rw [← Bool.not_eq_true, Text.contains_iff]
      exact ⟨fun both => ⟨both.1, both.2⟩, fun tidy => ⟨tidy.plain, tidy.unclosed⟩⟩)

/-- Pieces without region comments that spell a sound text. -/
noncomputable def piecesOf (text : Text) : List Piece :=
  Classical.epsilon fun pieces => Unmarked pieces ∧ spell pieces = text

theorem Sound.piecesOf {text : Text} (sound : Sound text) :
    Unmarked (piecesOf text) ∧ spell (PageComposer.piecesOf text) = text :=
  Classical.epsilon_spec (exists_pieces sound)

/-- The piece of a comment that leads with a word, if the rest may stand in one. -/
def ledPieces (lead : Lead) (rest : Text) : List Piece :=
  if tidy : Tidy rest then [.led lead rest tidy] else []

theorem spell_ledPieces (lead : Lead) {rest : Text} (tidy : Tidy rest) :
    spell (ledPieces lead rest) = lead.opening ++ rest ++ tagClose := by
  rw [ledPieces, dif_pos tidy]
  simp [Piece.text]

/-- Pieces between the comments of a region. -/
def Placeholder.enclosed (placeholder : Placeholder) (pieces : List Piece) : List Piece :=
  ledPieces .begins placeholder.definition ++ pieces ++ ledPieces .ends placeholder.definition

/-- The pieces that are put in for a placeholder. -/
noncomputable def Resolution.shownPieces (options : Options) (placeholder : Placeholder)
    (resolution : Resolution) : List Piece :=
  match placeholder.kind, options.markRegions with
  | .file, true | .layout, true => placeholder.enclosed (piecesOf resolution.text)
  | _, _ => piecesOf resolution.text

/-- Pieces with the surroundings of a wrap around them and in between. -/
noncomputable def Surroundings.around (surroundings : Surroundings) (front back : List Piece) :
    List Piece :=
  piecesOf surroundings.before ++ (front ++ piecesOf surroundings.inside ++ back) ++
    piecesOf surroundings.after

/-- The addresses that were registered in a run join those of the runs before
it. -/
def Includes.register (includes : Includes) (resolved : List (Placeholder × Resolution)) :
    Includes :=
  let registered := resolved.filter fun found => found.1.kind != .wrap
  { includes with
    styles := includes.styles ++ registered.flatMap fun found => found.2.styles
    scripts := includes.scripts ++ registered.flatMap fun found => found.2.scripts }

/-- What a run makes of a piece.  A wrap is left as it stands. -/
noncomputable def Piece.turned (composer : Composer) (template : Path) (options : Options)
    (piece : Piece) : List Piece :=
  match piece.tagAmong? composer.kinds with
  | none => [piece]
  | some (kind, raw) =>
      if kind = .wrap then [piece]
      else
        match readTag composer.site template kind 0 raw with
        | .error _ => []
        | .ok placeholder =>
            match composer.resolve template placeholder with
            | .error _ => []
            | .ok resolution => resolution.shownPieces options placeholder

/-! ## Definitions of regions -/

theorem tidy_argsSuffix {name : Text} {placeholder : Placeholder} (nameTidy : Tidy name)
    (tidy : ∀ arg ∈ placeholder.args, Tidy arg) : Tidy (name ++ placeholder.argsSuffix) := by
  have joined (separator : Char) (foreign : separator ∉ tagClose) (other : separator ≠ '<') :
      Tidy (Text.joinWith [separator] placeholder.args) := Tidy.joinWith foreign other tidy
  unfold Placeholder.argsSuffix
  split
  · rwa [List.append_nil]
  · rw [List.cons_append]
    apply nameTidy.append_cons (by decide) (by decide)
    exact (joined ';' (by decide) (by decide)).append_cons (by decide) (by decide) Tidy.nil
  · exact nameTidy.append_cons (by decide) (by decide) (joined ',' (by decide) (by decide))

theorem tidy_definition {placeholder : Placeholder}
    (tidy : TidyParts placeholder.name placeholder.args) : Tidy placeholder.definition := by
  have named : ∀ kind : Kind, '<' ∉ kind.name ++ ['-'] ∧ ' ' ∉ kind.name ++ ['-'] := by
    intro kind
    cases kind <;> decide
  have joined : placeholder.definition =
      (placeholder.kind.name ++ ['-']) ++ (placeholder.name ++ placeholder.argsSuffix) := by
    simp [Placeholder.definition]
  rw [joined]
  exact Tidy.append_of_without (named _).1 (named _).2 (tidy_argsSuffix tidy.name tidy.args)

theorem spell_shownPieces {options : Options} {placeholder : Placeholder} {resolution : Resolution}
    (tidy : TidyParts placeholder.name placeholder.args) (sound : Sound resolution.text) :
    spell (resolution.shownPieces options placeholder) = resolution.shown options placeholder := by
  have inside := sound.piecesOf.2
  have enclosed : spell (placeholder.enclosed (piecesOf resolution.text)) =
      beginTag placeholder.definition ++ resolution.text ++ endTag placeholder.definition := by
    unfold Placeholder.enclosed
    rw [spell_append, spell_append, spell_ledPieces _ (tidy_definition tidy),
      spell_ledPieces _ (tidy_definition tidy), inside]
    rfl
  unfold Resolution.shownPieces Resolution.shown
  cases placeholder.kind <;> cases marked : options.markRegions <;>
    simp only [Placeholder.region, Bool.false_eq_true, if_false, if_true, inside, enclosed]

/-! ## Turning the pieces of a document -/

/-- A composer of distinct kinds works over a clean site in which no link is
forged, on a template with a plain path. -/
structure CleanSetting (listing : Listing) (addressing : Addressing) (composer : Composer)
    (template : Path) : Prop where
  clean : CleanSite listing addressing
  linkless : NoForgedLink (listing.toSite addressing)
  sited : composer.site = listing.toSite addressing
  plainly : Plainly template.text
  distinct : composer.kinds.Nodup

section Turning

variable {listing : Listing} {addressing : Addressing} {composer : Composer} {template : Path}

/-- What a placeholder is resolved to does not depend on where it stands. -/
theorem unplaced_resolve (sited : composer.site = listing.toSite addressing) (template : Path) :
    Unplaced (composer.resolve template) := by
  intro placeholder start
  have located : composer.site.locate (placeholder.placed start) =
      composer.site.locate placeholder := by
    rw [sited]
    rfl
  have file : composer.fileText (placeholder.placed start) = composer.fileText placeholder := by
    unfold Composer.fileText
    rw [located]
    rfl
  have layout : composer.layoutText (placeholder.placed start) =
      composer.layoutText placeholder := by
    unfold Composer.layoutText
    rw [located]
    rfl
  have linked : composer.linkedAddress template (placeholder.placed start) =
      composer.linkedAddress template placeholder := by
    unfold Composer.linkedAddress
    rw [located]
    rfl
  unfold Composer.resolve
  rw [file, layout, linked]
  rfl

theorem unplaced_surround (sited : composer.site = listing.toSite addressing) :
    Unplaced (surround composer.site) := by
  intro wrap start
  rw [sited]
  rfl

theorem applyWrap_placed (sited : composer.site = listing.toSite addressing) (wrap : Placeholder)
    (front back : Text) :
    applyWrap composer.site (wrap.placed (Text.byteSize front)) (front ++ wrap.tag ++ back) =
      (surround composer.site wrap).map fun around =>
        around.before ++ (front ++ around.inside ++ back) ++ around.after := by
  rw [← unplaced_surround sited wrap (Text.byteSize front)]
  exact applyWrap_eq_surround rfl rfl

/-- A tag that is read and resolved turns into the pieces of its text. -/
theorem turned_of_read (sited : composer.site = listing.toSite addressing) {options : Options}
    {piece : Piece} {kind : Kind} {raw : Text} {start : Nat} {placeholder : Placeholder}
    {resolution : Resolution} (tagged : piece.tagAmong? composer.kinds = some (kind, raw))
    (accepted : readTag composer.site template kind start raw = .ok placeholder)
    (other : kind ≠ .wrap) (resolved : composer.resolve template placeholder = .ok resolution) :
    piece.turned composer template options = resolution.shownPieces options placeholder := by
  rw [readTag_placed] at accepted
  rcases map_eq_ok_iff.mp accepted with ⟨unplaced, read, equal⟩
  have same := unplaced_resolve sited template unplaced start
  rw [equal, resolved] at same
  simp only [Piece.turned, tagged, if_neg other, read, ← same]
  rw [← equal]
  rfl

theorem CleanSetting.tidy_tag (setting : CleanSetting listing addressing composer template)
    {kinds : List Kind} {piece : Piece} {kind : Kind} {raw : Text} {start : Nat}
    {placeholder : Placeholder} (tagged : piece.tagAmong? kinds = some (kind, raw))
    (accepted : readTag composer.site template kind start raw = .ok placeholder) :
    TidyParts placeholder.name placeholder.args := by
  rcases tagAmong?_eq_some tagged with ⟨_, tidy, _⟩
  have served : composer.site.address = addressing.address := by
    rw [setting.sited]
    rfl
  exact tidyParts_of_readTag served setting.clean.addressing setting.plainly tidy accepted

/-- A tag that is no wrap is resolved to a sound text. -/
theorem CleanSetting.sound_tag (setting : CleanSetting listing addressing composer template)
    {kinds : List Kind} {piece : Piece} {kind : Kind} {raw : Text} {start : Nat}
    {placeholder : Placeholder} {resolution : Resolution}
    (tagged : piece.tagAmong? kinds = some (kind, raw))
    (accepted : readTag composer.site template kind start raw = .ok placeholder)
    (other : kind ≠ .wrap) (resolved : composer.resolve template placeholder = .ok resolution) :
    TidyParts placeholder.name placeholder.args ∧ Sound resolution.text := by
  have tidy := setting.tidy_tag tagged accepted
  have notWrap : placeholder.kind ≠ .wrap := by
    rw [readTag_kind accepted]
    exact other
  exact ⟨tidy, setting.clean.sound_resolve setting.linkless setting.sited tidy notWrap resolved⟩

theorem turned_of_not_tagged {options : Options} {piece : Piece}
    (other : piece.tagAmong? composer.kinds = none) :
    piece.turned composer template options = [piece] := by
  simp only [Piece.turned, other]

/-- A piece stays as it is, or it is a tag that turns into the pieces of a sound
text, unless it cannot be resolved. -/
theorem turned_cases (setting : CleanSetting listing addressing composer template)
    (piece : Piece) :
    (∀ options, piece.turned composer template options = [piece]) ∨
      piece.isRegionComment = false ∧
        ((∀ options, piece.turned composer template options = []) ∨
          ∃ (placeholder : Placeholder) (resolution : Resolution),
            TidyParts placeholder.name placeholder.args ∧ Sound resolution.text ∧
              ∀ options, piece.turned composer template options =
                resolution.shownPieces options placeholder) := by
  cases tagged : piece.tagAmong? composer.kinds with
  | none => exact Or.inl fun options => turned_of_not_tagged tagged
  | some tag =>
      rcases tag with ⟨kind, raw⟩
      have unmarked : piece.isRegionComment = false := by
        rcases tagAmong?_eq_some tagged with ⟨_, tidy, equal⟩
        rw [equal]
        rfl
      by_cases isWrap : kind = .wrap
      · apply Or.inl
        intro options
        simp only [Piece.turned, tagged, if_pos isWrap]
      · refine Or.inr ⟨unmarked, ?_⟩
        cases read : readTag composer.site template kind 0 raw with
        | error failure =>
            apply Or.inl
            intro options
            simp only [Piece.turned, tagged, if_neg isWrap, read]
        | ok placeholder =>
            cases resolved : composer.resolve template placeholder with
            | error failure =>
                apply Or.inl
                intro options
                simp only [Piece.turned, tagged, if_neg isWrap, read, resolved]
            | ok resolution =>
                rcases setting.sound_tag tagged read isWrap resolved with ⟨tidy, sound⟩
                refine Or.inr ⟨placeholder, resolution, tidy, sound, ?_⟩
                intro options
                exact turned_of_read setting.sited tagged read isWrap resolved

/-- Putting in what was resolved turns the pieces of the document. -/
theorem Reads.turned (setting : CleanSetting listing addressing composer template)
    (options : Options) {offset : Nat} {pieces : List Piece}
    {resolved : List (Placeholder × Resolution)}
    (reads : Reads composer.site template composer.kinds offset pieces (resolved.map Prod.fst))
    (each : ∀ found ∈ resolved, composer.resolve template found.1 = .ok found.2) :
    PageComposer.substituteFrom offset (shownSpans options resolved) (spell pieces) =
      spell (pieces.flatMap (Piece.turned composer template options)) := by
  generalize placeholdersEqual : resolved.map Prod.fst = placeholders at reads
  have spansLaid {offset : Nat} {pieces : List Piece}
      {resolved : List (Placeholder × Resolution)}
      (reads : Reads composer.site template composer.kinds offset pieces
        (resolved.map Prod.fst)) :
      Laid offset ((shownSpans options resolved).map Prod.fst) (spell pieces) := by
    rw [shownSpans_placeholders]
    exact reads.laid.filter _
  induction reads generalizing resolved with
  | nil =>
      rw [List.map_eq_nil_iff.mp placeholdersEqual]
      rfl
  | @skip offset piece rest placeholders other behind inductionHypothesis =>
      rw [spell_cons, List.flatMap_cons, turned_of_not_tagged other, spell_append, spell_cons,
        spell_nil, List.append_nil,
        substituteFrom_prepend (spansLaid (placeholdersEqual ▸ behind)),
        inductionHypothesis each placeholdersEqual]
  | @read offset piece rest kind raw placeholder placeholders tagged accepted behind
      inductionHypothesis =>
      rcases List.map_eq_cons_iff.mp placeholdersEqual with
        ⟨found, others, split, first, behindEqual⟩
      subst split
      rcases found with ⟨own, resolution⟩
      have same : placeholder = own := first.symm
      subst same
      rw [List.forall_mem_cons] at each
      have later := inductionHypothesis each.2 behindEqual
      rcases Reads.stop_eq tagged accepted with ⟨stops, starts, tag⟩
      have kindEqual := readTag_kind accepted
      rw [spell_cons, List.flatMap_cons, spell_append]
      by_cases isWrap : kind = .wrap
      · have skipped : shownSpans options ((placeholder, resolution) :: others) =
            shownSpans options others := by
          simp [shownSpans, kindEqual, isWrap]
        have stays : piece.turned composer template options = [piece] := by
          simp only [Piece.turned, tagged, if_pos isWrap]
        rw [stops] at behind later
        rw [skipped, stays, substituteFrom_prepend (spansLaid (behindEqual ▸ behind)), later,
          spell_cons, spell_nil, List.append_nil]
      · have replaced : shownSpans options ((placeholder, resolution) :: others) =
            (placeholder, resolution.shown options placeholder) :: shownSpans options others := by
          simp [shownSpans, kindEqual, isWrap]
        have around : piece.text ++ spell rest = [] ++ placeholder.tag ++ spell rest := by
          rw [tag, List.nil_append]
        rcases setting.sound_tag tagged accepted isWrap each.1 with ⟨tidy, sound⟩
        rw [replaced, around, substituteFrom_cons starts (by rw [stops, starts, tag]), later,
          turned_of_read setting.sited tagged accepted isWrap each.1, spell_shownPieces tidy sound]
        rfl

/-- A run on what was read from pieces resolves all tags and then finishes. -/
theorem Reads.run_eq {includes : Includes} {options : Options} {pieces : List Piece}
    {placeholders : List Placeholder}
    (reads : Reads composer.site template composer.kinds 0 pieces placeholders) :
    composer.run template options (spell pieces) placeholders includes =
      composer.progress template options (spell pieces) placeholders >>=
        composer.finish includes := by
  apply Composer.run_eq_progress reads.ordered.2
  intro placeholder member
  exact (reads.ordered.1 placeholder member).2

theorem exists_wrap_of_read {pieces : List Piece} {placeholders : List Placeholder} {offset : Nat}
    (reads : Reads composer.site template composer.kinds offset pieces placeholders)
    {placeholder : Placeholder} (member : placeholder ∈ placeholders)
    (isWrap : placeholder.kind = .wrap) :
    ∃ piece ∈ pieces, ∃ raw, piece.tagAmong? composer.kinds = some (.wrap, raw) := by
  rcases reads.exists_readAt member with ⟨before, piece, after, found⟩
  rcases found.read with ⟨raw, tagged, _⟩
  rw [isWrap] at tagged
  refine ⟨piece, ?_, raw, tagged⟩
  rw [found.joined]
  exact List.mem_append_right _ List.mem_cons_self

/-- Without a wrap a run turns the pieces of the document and does nothing
else. -/
theorem run_spell_without_wrap (setting : CleanSetting listing addressing composer template)
    {options : Options} {includes : Includes} {pieces : List Piece}
    {placeholders : List Placeholder}
    (reads : Reads composer.site template composer.kinds 0 pieces placeholders)
    (without : ∀ piece ∈ pieces, ∀ raw, piece.tagAmong? composer.kinds ≠ some (.wrap, raw)) :
    composer.run template options (spell pieces) placeholders includes =
      (composer.resolveAll template placeholders.reverse).map fun backwards =>
        (spell (pieces.flatMap (Piece.turned composer template options)),
          includes.register backwards.reverse) := by
  rw [reads.run_eq, Composer.progress_eq]
  cases all : composer.resolveAll template placeholders.reverse with
  | error failure => rfl
  | ok backwards =>
      have forwards := mapM_reverse_eq_ok_iff.mp all
      rcases Composer.resolveAll_eq_ok_iff.mp forwards with ⟨same, each⟩
      have laid := reads.laid
      rw [← same] at reads laid
      have standing : ({ text := spell pieces } : RunState).text = [] ++ spell pieces ++ [] :=
        (List.append_nil _).symm
      have put := (absorbed options standing laid rfl).1
      have registered := absorbed_addresses options backwards.reverse { text := spell pieces }
      rw [reads.turned setting options each, List.nil_append, List.append_nil] at put
      have nothing := @absorbed_without_wrap options backwards (by
        intro placeholder member isWrap
        rw [List.map_reverse] at same
        have within : placeholder ∈ (backwards.reverse.map Prod.fst) := by
          rw [List.map_reverse, List.mem_reverse]
          exact member
        rcases exists_wrap_of_read reads within isWrap with ⟨piece, inside, raw, tagged⟩
        exact without piece inside raw tagged) { text := spell pieces } rfl
      rw [List.reverse_reverse] at put registered
      change composer.finish includes
        (backwards.foldl (RunState.absorb options) { text := spell pieces }) = _
      generalize backwards.foldl (RunState.absorb options) { text := spell pieces } = state
        at put registered nothing ⊢
      rw [Composer.finish, nothing]
      dsimp only at registered ⊢
      rw [put, registered.1, registered.2, List.append_nil, List.append_nil]
      rfl

theorem run_spell (setting : CleanSetting listing addressing composer template)
    (wrapless : Kind.wrap ∉ composer.kinds) {options : Options} {includes after : Includes}
    {pieces : List Piece} {placeholders : List Placeholder} {text : Text}
    (reads : Reads composer.site template composer.kinds 0 pieces placeholders)
    (finished : composer.run template options (spell pieces) placeholders includes =
      .ok (text, after)) :
    (∃ resolved, composer.resolveAll template placeholders = .ok resolved) ∧
      text = spell (pieces.flatMap (Piece.turned composer template options)) := by
  have without : ∀ piece ∈ pieces, ∀ raw,
      piece.tagAmong? composer.kinds ≠ some (.wrap, raw) :=
    fun piece _ raw tagged => wrapless (tagAmong?_eq_some tagged).1
  rw [run_spell_without_wrap setting reads without] at finished
  rcases map_eq_ok_iff.mp finished with ⟨backwards, all, equal⟩
  cases equal
  exact ⟨⟨_, mapM_reverse_eq_ok_iff.mp all⟩, rfl⟩

/-- The results for a document that is split at a tag. -/
theorem Reads.split_resolved {before after : List Piece} {piece : Piece} {kind : Kind} {raw : Text}
    {placeholder : Placeholder} {resolved : List (Placeholder × Resolution)}
    (reads : Reads composer.site template composer.kinds 0 (before ++ piece :: after)
      (resolved.map Prod.fst))
    (tagged : piece.tagAmong? composer.kinds = some (kind, raw))
    (read : readTag composer.site template kind 0 raw = .ok placeholder) :
    ∃ earlier resolution later,
      resolved = earlier ++
        (placeholder.placed (Text.byteSize (spell before)), resolution) :: later ∧
      Reads composer.site template composer.kinds 0 before (earlier.map Prod.fst) ∧
      Reads composer.site template composer.kinds
        (placeholder.placed (Text.byteSize (spell before))).stop after (later.map Prod.fst) := by
  rcases reads.exists_append with ⟨front, rest, joined, readsFront, readsRest⟩
  rw [Nat.zero_add] at readsRest
  cases readsRest with
  | skip other _ =>
      rw [tagged] at other
      cases other
  | @read _ _ _ _ _ own back again accepted readsBack =>
      rw [tagged] at again
      cases again
      rw [readTag_placed, read] at accepted
      cases accepted
      rcases List.map_eq_append_iff.mp joined with ⟨earlier, others, split, former, latter⟩
      rcases List.map_eq_cons_iff.mp latter with ⟨found, later, splitOthers, first, behind⟩
      subst split splitOthers former behind
      refine ⟨earlier, found.2, later, ?_, readsFront, readsBack⟩
      have whole : found = (placeholder.placed (Text.byteSize (spell before)), found.2) :=
        Prod.ext first rfl
      rw [← whole]

/-- When everything but the last wrap is done, its tag stands between the turned
pieces, and the kept offsets delimit it there. -/
theorem absorbed_spell_with_wrap (setting : CleanSetting listing addressing composer template)
    (options : Options) {before after : List Piece} {piece : Piece} {raw : Text}
    {wrap : Placeholder} {resolved : List (Placeholder × Resolution)}
    (reads : Reads composer.site template composer.kinds 0 (before ++ piece :: after)
      (resolved.map Prod.fst))
    (each : ∀ found ∈ resolved, composer.resolve template found.1 = .ok found.2)
    (tagged : piece.tagAmong? composer.kinds = some (.wrap, raw))
    (read : readTag composer.site template .wrap 0 raw = .ok wrap)
    (without : ∀ piece ∈ after, ∀ raw, piece.tagAmong? composer.kinds ≠ some (.wrap, raw)) :
    let final := resolved.reverse.foldl (RunState.absorb options)
      { text := spell (before ++ piece :: after) }
    let front := spell (before.flatMap (Piece.turned composer template options))
    final.text = front ++ wrap.tag ++
        spell (after.flatMap (Piece.turned composer template options)) ∧
      final.wrap? = some (wrap.placed (Text.byteSize front)) := by
  rcases reads.split_resolved tagged read with
    ⟨earlier, resolution, later, split, readsFront, readsBack⟩
  rw [split, List.forall_mem_append, List.forall_mem_cons] at each
  have spelled : spell (before ++ piece :: after) = spell before ++ wrap.tag ++ spell after := by
    rw [spell_append, spell_cons, ← (Reads.stop_eq tagged read).2.2, List.append_assoc]
  have wrapKind : wrap.kind = .wrap := readTag_kind read
  have isWrap : (wrap.placed (Text.byteSize (spell before))).kind = .wrap := wrapKind
  have notWrap : ∀ other ∈ later.map Prod.fst, other.kind ≠ .wrap := by
    intro other member isWrap
    rcases exists_wrap_of_read readsBack member isWrap with ⟨found, inside, other, again⟩
    exact without found inside other again
  have kept := absorbed_wrap options resolution isWrap notWrap rfl rfl readsFront.laid
    readsBack.laid
  rw [readsFront.turned setting options each.1, readsBack.turned setting options each.2.2,
    ← split] at kept
  rw [spelled]
  exact kept

/-- The last wrap of a document puts its surroundings around the turned pieces
and in between, where its tag was. -/
theorem run_spell_with_wrap (setting : CleanSetting listing addressing composer template)
    {options : Options} {includes : Includes} {before after : List Piece} {piece : Piece}
    {raw : Text} {wrap : Placeholder} {placeholders : List Placeholder}
    (reads : Reads composer.site template composer.kinds 0 (before ++ piece :: after) placeholders)
    (tagged : piece.tagAmong? composer.kinds = some (.wrap, raw))
    (read : readTag composer.site template .wrap 0 raw = .ok wrap)
    (without : ∀ piece ∈ after, ∀ raw, piece.tagAmong? composer.kinds ≠ some (.wrap, raw)) :
    composer.run template options (spell (before ++ piece :: after)) placeholders includes =
      composer.resolveAll template placeholders.reverse >>= fun backwards =>
        (surround composer.site wrap).map fun around =>
          (spell (around.around (before.flatMap (Piece.turned composer template options))
            (after.flatMap (Piece.turned composer template options))),
            includes.register backwards.reverse) := by
  rw [reads.run_eq, Composer.progress_eq]
  cases all : composer.resolveAll template placeholders.reverse with
  | error failure => rfl
  | ok backwards =>
      rcases Composer.resolveAll_eq_ok_iff.mp (mapM_reverse_eq_ok_iff.mp all) with ⟨same, each⟩
      rw [← same] at reads
      have kept := absorbed_spell_with_wrap setting options reads each tagged read without
      have registered := absorbed_addresses options backwards.reverse
        { text := spell (before ++ piece :: after) }
      rw [List.reverse_reverse] at kept registered
      change composer.finish includes (backwards.foldl (RunState.absorb options)
        { text := spell (before ++ piece :: after) }) = _
      generalize backwards.foldl (RunState.absorb options)
        { text := spell (before ++ piece :: after) } = state at kept registered ⊢
      rcases kept with ⟨text, waiting⟩
      rw [Composer.finish, waiting]
      dsimp only at registered ⊢
      rw [text, applyWrap_placed setting.sited, registered.1, registered.2, List.append_nil,
        List.append_nil]
      have tidy := setting.tidy_tag tagged read
      cases around : surround composer.site wrap with
      | error failure => rfl
      | ok surroundings =>
          have sound := setting.clean.sound_surround setting.linkless tidy.name
            (setting.sited ▸ around)
          simp only [Except.map, Surroundings.around, spell_append, sound.1.piecesOf.2,
            sound.2.1.piecesOf.2, sound.2.2.piecesOf.2]
          rfl

end Turning

/-! ## Repeated runs -/

namespace Composer

variable {composer : Composer} {template : Path} {options : Options} {document : Text}
  {includes : Includes} {remaining runs : Nat}

theorem runWithin_of_error {failure : Failure}
    (scanned : composer.scan template document = .error failure) :
    composer.runWithin template options remaining runs document includes = .error failure := by
  rw [runWithin, scanned]
  rfl

theorem runWithin_of_no_tag (scanned : composer.scan template document = .ok []) :
    composer.runWithin template options remaining runs document includes =
      .ok ⟨document, template, includes, runs, true⟩ := by
  rw [runWithin, scanned]
  rfl

variable {first : Placeholder} {others : List Placeholder}

theorem runWithin_zero_of_tags (scanned : composer.scan template document = .ok (first :: others)) :
    composer.runWithin template options 0 runs document includes =
      .ok ⟨document, template, includes, runs, false⟩ := by
  rw [runWithin, scanned]
  rfl

theorem runWithin_succ_of_tags
    (scanned : composer.scan template document = .ok (first :: others)) :
    composer.runWithin template options (remaining + 1) runs document includes =
      composer.run template options document (first :: others) includes >>= fun result =>
        composer.runWithin template options remaining (runs + 1) result.1 result.2 := by
  rw [runWithin, scanned]
  rfl

/-- The scan that opens the next run, of a composition that ends with a page. -/
theorem exists_scan_of_runWithin {composition : Composition}
    (composed : composer.runWithin template options remaining runs document includes =
      .ok composition) :
    ∃ placeholders, composer.scan template document = .ok placeholders := by
  cases scanned : composer.scan template document with
  | ok placeholders => exact ⟨placeholders, rfl⟩
  | error failure =>
      rw [runWithin_of_error scanned] at composed
      cases composed

end Composer

/-- The link that is forged in a file ends inside of the tag behind it. -/
def forgingComposer : Composer where
  site := forgingFiles.toSite (.atRoot ⟨"/site".toList⟩)
  kinds := [.file]

/-- A tag that includes that file, at the start of a document. -/
def forgedTag : Placeholder where
  name := "/f".toList
  kind := .file
  start := 0
  stop := 16
  tag := "<!-- file:/f -->".toList
  args := []
  style := .none
  document := ⟨"/site/index.html".toList⟩

end PageComposer
