import PageComposer.Proofs.Fragment.Sound
import PageComposer.Proofs.Run.Resolution

namespace PageComposer

/-!
# What replaces a tag is sound

Every tag of a document over a clean site is replaced by a sound text, whatever
it asks for: a fragment, a layout with its slots filled, a notice, or nothing
(`CleanSite.sound_resolve`).  In a layout the slots are filled from the last one
backwards, so what lies behind the slots still to come is already changed; the
invariant of `sound_fillSlots` is that it is sound.
-/

theorem sound_flatten {texts : List Text} (each : ∀ text ∈ texts, Sound text) :
    Sound texts.flatten := by
  induction texts with
  | nil => exact sound_nil
  | cons first others inductionHypothesis =>
      rw [List.forall_mem_cons] at each
      exact each.1.append (inductionHypothesis each.2)

theorem Tidy.sound {text : Text} (tidy : Tidy text) : Sound text :=
  sound_of_isPlain tidy.plain

/-- What a notice says in front of the name of its slot. -/
def noticeWords : Text := ' ' :: "content placeholder not called as layout - content".toList

theorem tidy_noticeWords : Tidy noticeWords := by
  refine ⟨by decide +kernel, ?_⟩
  rw [← Text.contains_iff]
  decide +kernel

theorem not_word_isPrefix_noticeWords (lead : Lead) (rest : Text) :
    ¬ ' ' :: lead.word <+: noticeWords ++ rest := by
  intro leads
  have shorter : ∀ lead ∈ Lead.all, (' ' :: lead.word).isPrefixOf noticeWords = false ∧
      (' ' :: lead.word).length ≤ noticeWords.length := by decide +kernel
  rcases shorter lead lead.mem_all with ⟨absent, short⟩
  have inside := List.prefix_of_prefix_length_le leads (List.prefix_append _ _) short
  rw [List.isPrefixOf_iff_prefix.mpr inside] at absent
  cases absent

/-- A notice is a comment that is no tag. -/
theorem sound_slotNotice {placeholder : Placeholder} (tidy : Tidy placeholder.name) :
    Sound (Composer.slotNotice placeholder) := by
  have body : Tidy (noticeWords ++ ':' :: placeholder.name) :=
    tidy_noticeWords.append_cons (by decide) (by decide) tidy
  have spaced : Text.startsWith [' ']
      (noticeWords ++ ':' :: placeholder.name ++ tagClose) = true := by
    rw [noticeWords, List.cons_append, List.cons_append]
    generalize _ ++ tagClose = rest
    rfl
  have notice := @sound_piece
    (.remark _ body spaced fun lead => not_word_isPrefix_noticeWords lead _) rfl
  have opening : "<!-- content placeholder not called as layout - content:".toList =
      commentStart ++ (noticeWords ++ [':']) := by decide +kernel
  have spelled : Composer.slotNotice placeholder =
      commentStart ++ (noticeWords ++ ':' :: placeholder.name) ++ tagClose := by
    unfold Composer.slotNotice
    rw [opening]
    generalize noticeWords = words
    simp only [List.append_assoc, List.cons_append, List.nil_append]
  rw [spelled]
  exact notice

/-! ## Arguments of a layout -/

theorem sound_bindPart {composer : Composer} {part text : Text} (tidy : Tidy part)
    (bound : composer.bindPart part = .ok text) : Sound text := by
  unfold Composer.bindPart at bound
  split at bound
  · rename_i literal unquoted
    cases bound
    unfold unquote? at unquoted
    split at unquoted
    · rename_i quote inner
      split at unquoted
      · rename_i quoted
        cases unquoted
        have inside : Tidy inner := tidy.of_suffix (List.suffix_cons quote inner)
        have separate : separates quote = true := by
          rcases quoted with single | double
          · rw [single]
            decide
          · rw [double]
            decide
        exact (inside.getD_dropEnd? separate).sound
      · cases unquoted
    · cases unquoted
  · split at bound
    · rename_i typed
      cases bound
      rcases List.any_eq_true.mp typed with ⟨kind, _, starts⟩
      rcases List.isPrefixOf_iff_prefix.mp starts with ⟨rest, joined⟩
      have inner : Tidy rest := tidy.of_suffix ⟨_, joined⟩
      have tag := @sound_piece (.led (.tag kind) rest inner) rfl
      have spelled : tagOpen ++ part ++ tagClose = (Piece.led (.tag kind) rest inner).text := by
        rw [← joined]
        change _ = kind.opening ++ rest ++ tagClose
        simp only [Kind.opening, List.append_assoc]
      rw [spelled]
      exact tag
    · cases bound

theorem tidy_of_mem_splitValues {value : Text} (tidy : Tidy value) :
    ∀ part ∈ splitValues value, Tidy part := by
  intro part member
  unfold splitValues at member
  split at member
  · split at member
    · rw [List.mem_singleton.mp member]
      exact tidy
    · exact tidy.of_mem_splitOn (by decide) member
  · rw [List.mem_singleton.mp member]
    exact tidy

theorem sound_bindValues {composer : Composer} {value text : Text} (tidy : Tidy value)
    (bound : composer.bindValues value = .ok text) : Sound text := by
  rcases bind_eq_ok_iff.mp bound with ⟨parts, each, equal⟩
  cases equal
  apply sound_flatten
  intro part member
  have image : Except.ok part ∈ (splitValues value).map composer.bindPart := by
    rw [mapM_eq_ok_iff.mp each]
    exact List.mem_map_of_mem member
  rcases List.mem_map.mp image with ⟨written, within, found⟩
  exact sound_bindPart (tidy_of_mem_splitValues tidy written within) found

theorem tidy_boundValue? {mode : BindingMode} {args : List Text} (tidy : ∀ arg ∈ args, Tidy arg)
    {slot : Placeholder} {index : Nat} {value : Text}
    (bound : Composer.boundValue? mode args slot index = some value) : Tidy value := by
  cases mode with
  | byName =>
      rcases List.lookup_eq_some_iff.mp bound with ⟨before, after, entries, _⟩
      have member : (slot.name, value) ∈ args.filterMap (Text.cutAtChar? '=') := by
        rw [entries]
        exact List.mem_append_right _ List.mem_cons_self
      rcases List.mem_filterMap.mp member with ⟨arg, within, cut⟩
      exact ((tidy arg within).cutAtChar? (by decide) cut).2
  | byPosition =>
      exact tidy value (List.mem_reverse.mp (List.mem_of_getElem? bound))

theorem tidy_wrapperName? {slot : Placeholder} (tidy : ∀ arg ∈ slot.args, Tidy arg)
    {wrapper : Text} (named : slot.wrapperName? = some wrapper) : Tidy wrapper := by
  unfold Placeholder.wrapperName? at named
  split at named
  · rcases Option.map_eq_some_iff.mp named with ⟨arg, first, equal⟩
    have argTidy := tidy arg (List.mem_of_head? first)
    rw [← equal]
    apply Tidy.trim
    cases cut : Text.cutAtChar? '=' arg with
    | none => exact argTidy
    | some pieces => exact (@Tidy.cutAtChar? _ '=' (by decide) pieces.1 pieces.2 argTidy cut).2
  · cases named

namespace CleanSite

variable {listing : Listing} {addressing : Addressing} {composer : Composer}

theorem sound_wrapSlot (clean : CleanSite listing addressing)
    (sited : composer.site = listing.toSite addressing) {slot : Placeholder}
    {wrapper bound text : Text} (tidy : Tidy wrapper) (sound : Sound bound)
    (wrapped : composer.wrapSlot slot wrapper bound = .ok text) : Sound text := by
  have name : Tidy (if Text.startsWith ['/'] wrapper then wrapper else '/' :: wrapper) := by
    split
    · exact tidy
    · exact tidy.cons_slash
  rcases Composer.eq_of_wrapSlot wrapped with
    blocked | ⟨path, contents, main, _, read, found, put⟩
  · rw [blocked]
    exact sound_unprocessedBlock name
  · rw [sited] at read found
    rcases exists_mainSlot found with ⟨_, _, slot⟩
    rcases slot.exists_scan with ⟨slots, scanned, within⟩
    rw [put]
    exact (clean.read read).2.sound.replaceIn scanned within sound

theorem sound_slotText (clean : CleanSite listing addressing)
    (sited : composer.site = listing.toSite addressing) {slot : Placeholder}
    (tidy : ∀ arg ∈ slot.args, Tidy arg) {value? : Option Text}
    (valueTidy : ∀ value, value? = some value -> Tidy value) {text : Text}
    (filled : composer.slotText slot value? = .ok text) : Sound text := by
  rcases Composer.exists_bound_of_slotText filled with ⟨markup, received, placed⟩
  have sound : Sound markup := by
    rcases Composer.received_eq_ok_iff.mp received with ⟨_, empty⟩ | ⟨value, given, binding⟩
    · rw [empty]
      exact sound_nil
    · exact sound_bindValues (valueTidy value given) binding
  rcases placed with ⟨_, equal⟩ | ⟨wrapper, named, wrapped⟩
  · rw [equal]
    exact sound
  · exact clean.sound_wrapSlot sited (tidy_wrapperName? tidy named) sound wrapped

theorem sound_fillSlots (clean : CleanSite listing addressing)
    (sited : composer.site = listing.toSite addressing) {layoutPath : Path}
    (plainly : Plainly layoutPath.text) {mode : BindingMode} {args : List Text}
    (tidy : ∀ arg ∈ args, Tidy arg) {backwards : List Placeholder} {pieces : List Piece}
    (reads : Reads composer.site layoutPath [.content] 0 pieces backwards.reverse)
    (unmarked : Unmarked pieces) {tail : Text} (sound : Sound tail) {index : Nat} {text : Text}
    (filled : composer.fillSlots mode args (backwards.zipIdx index) (spell pieces ++ tail) =
      .ok text) : Sound text := by
  induction backwards generalizing pieces tail index with
  | nil =>
      cases filled
      exact (sound_spell unmarked).append sound
  | cons slot others inductionHypothesis =>
      rw [List.reverse_cons] at reads
      rcases reads.split with ⟨before, piece, after, found, former, _⟩
      rw [List.zipIdx_cons] at filled
      rcases bind_eq_ok_iff.mp filled with ⟨replacement, slotFilled, continued⟩
      rw [found.joined, unmarked_append] at unmarked
      have behind : Unmarked after :=
        fun other within => unmarked.2 other (List.mem_cons_of_mem _ within)
      rcases found.read with ⟨raw, tagged, accepted⟩
      rcases tagAmong?_eq_some tagged with ⟨_, rawTidy, _⟩
      have slotParts := tidyParts_of_readTag (sited ▸ rfl) clean.addressing plainly rawTidy accepted
      have put : Sound replacement :=
        clean.sound_slotText sited slotParts.args (fun value bound => tidy_boundValue? tidy bound)
          slotFilled
      have starts := found.start
      rw [Nat.zero_add] at starts
      have around : spell pieces ++ tail =
          spell before ++ slot.tag ++ (spell after ++ tail) := by
        rw [found.joined, spell_append, spell_cons, found.tag]
        simp only [List.append_assoc]
      rw [around, Placeholder.replaceIn_append starts (starts ▸ found.stop),
        List.append_assoc (spell before)] at continued
      exact inductionHypothesis former unmarked.1
        (put.append ((sound_spell behind).append sound)) continued

theorem sound_layoutText (clean : CleanSite listing addressing)
    (linkless : NoForgedLink (listing.toSite addressing))
    (sited : composer.site = listing.toSite addressing) {placeholder : Placeholder}
    (tidy : TidyParts placeholder.name placeholder.args) {text : Text}
    (laidOut : composer.layoutText placeholder = .ok text) : Sound text := by
  rcases Composer.eq_of_layoutText laidOut with
    blocked | ⟨path, contents, slots, mode, body, found, read, scanned, filled, trimmed⟩
  · rw [blocked]
    exact sound_errorBlock (isPlain_append (by decide +kernel) (isPlain_label tidy.name))
  · rw [sited] at found read
    rcases exists_pieces (clean.sound_readFragment linkless read).trim with
      ⟨pieces, unmarked, spelled⟩
    rw [← spelled] at scanned filled
    have reads := scanKindFrom_spell_iff.mp scanned
    rw [← List.append_nil (spell pieces)] at filled
    rw [trimmed]
    apply Sound.trim
    exact clean.sound_fillSlots sited (clean.locate found) tidy.args
      ((List.reverse_reverse slots).symm ▸ reads) unmarked sound_nil filled

theorem sound_fileText (clean : CleanSite listing addressing)
    (linkless : NoForgedLink (listing.toSite addressing))
    (sited : composer.site = listing.toSite addressing) {placeholder : Placeholder}
    (tidy : Tidy placeholder.name) {text : Text}
    (included : composer.fileText placeholder = .ok text) : Sound text := by
  rcases Composer.eq_of_fileText included with blocked | ⟨path, contents, _, read, trimmed⟩
  · rw [blocked]
    exact sound_unprocessedBlock tidy
  · rw [sited] at read
    rw [trimmed]
    exact (clean.sound_readFragment linkless read).trim

/-- What a tag other than a wrap is resolved to is sound. -/
theorem sound_resolve (clean : CleanSite listing addressing)
    (linkless : NoForgedLink (listing.toSite addressing))
    (sited : composer.site = listing.toSite addressing) {template : Path}
    {placeholder : Placeholder} (tidy : TidyParts placeholder.name placeholder.args)
    (other : placeholder.kind ≠ .wrap) {resolution : Resolution}
    (resolved : composer.resolve template placeholder = .ok resolution) :
    Sound resolution.text := by
  unfold Composer.resolve at resolved
  split at resolved
  · rename_i kind
    exact absurd kind other
  · rcases map_eq_ok_iff.mp resolved with ⟨text, included, equal⟩
    subst equal
    exact clean.sound_fileText linkless sited tidy.name included
  · rcases map_eq_ok_iff.mp resolved with ⟨text, laidOut, equal⟩
    subst equal
    exact clean.sound_layoutText linkless sited tidy laidOut
  · cases resolved
    exact sound_slotNotice tidy.name
  · rcases map_eq_ok_iff.mp resolved with ⟨address, _, equal⟩
    subst equal
    exact sound_nil
  · rcases map_eq_ok_iff.mp resolved with ⟨address, _, equal⟩
    subst equal
    exact sound_nil

end CleanSite
end PageComposer
